/-
Object literals and their members.

The grammar has one record for every form of member. It is split by its flags, and
whether it is a property or part of a pattern is told by its translated value. Main
definition:

* `Catalogue.objects` — members and object literals.
-/
import TypedTree.Catalogue.Basic

namespace TypedTree

namespace Catalogue

/-- The source pattern of members. -/
def memberSource : SourcePattern := { tag := "ObjectProperty" }

/-- Object literals and their members. -/
def objects (t : Common) : Building Unit := do
  let propertyName ← Builder.declare "PropertyName"
  let string ← Builder.declare "StringLiteral"
  let number ← Builder.declare "NumericLiteral"
  let key ← Builder.union "PropertyKey" [propertyName, string, number]
  let longhand ← split "ObjectPropertyLonghand"
    ((memberSource.requiring "shorthand" (.bool false)).requiring "computed" (.bool false)) [
    .required "key" key,
    .required "value" t.expression,
    t.flag "shorthand" false,
    t.flag "computed" false,
    t.freeVariables (freeIn ["value"])]
  let computed ← split "ComputedObjectProperty"
    ((memberSource.requiring "shorthand" (.bool false)).requiring "computed" (.bool true)) [
    .required "key" t.expression,
    .required "value" t.expression,
    t.flag "shorthand" false,
    t.flag "computed" true,
    t.freeVariables (freeIn ["key", "value"])]
  let identifier ← Builder.declare "IdentifierExpression"
  let shorthand ← split "ObjectPropertyShorthand"
    (memberSource.requiring "shorthand" (.bool true)) [
    .required "key" propertyName,
    .required "value" identifier,
    t.flag "shorthand" true,
    t.flag "computed" false,
    t.freeVariables (freeIn ["value"])]
  let property ← Builder.union "ObjectProperty" [longhand, computed, shorthand]
  let destructuring ← Builder.declare "DestructuringPattern"
  let value ← Builder.union "ObjectMemberValue" [t.expression, destructuring]
  let patternProperty ← Builder.declare "ObjectPropertyPattern"
  let member ← Builder.inspect "ObjectMember" {
    field := "value"
    probe := value
    arms := [⟨destructuring, patternProperty⟩, ⟨t.expression, property⟩] }
  let spread ← Builder.declare "SpreadElement"
  let member ← Builder.unionOf [member, spread]
  let properties ← Builder.arrayOf member
  let _ ← plain "ObjectExpression"
    [.required "properties" properties, t.freeVariables (freeIn ["properties"])]

end Catalogue

end TypedTree
