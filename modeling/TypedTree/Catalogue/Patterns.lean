/-
Binding and assignment patterns.

A pattern has the names that it binds and the names that are free in its defaults and
computed keys. Trailing rest elements have fields of their own. Main definition:

* `Catalogue.patterns` — all patterns, and the unions of those that may stand in a
  binding, in an assignment, or as a destructuring value.
-/
import TypedTree.Catalogue.Basic

namespace TypedTree

namespace Catalogue

/-- All patterns. Member accesses stand only where something is assigned, and bind
nothing there. -/
def patterns (t : Common) : Building Unit := do
  let rest ← Builder.declare "RestElement"
  let maybeRest ← Builder.nullable rest
  let identifier ← split "IdentifierPattern" { tag := "Identifier" } [
    .required "name" t.string,
    t.bindingNames (SetExpr.name {} "name"),
    t.noFreeVariables]
  let key ← Builder.declare "PropertyKey"
  let source : SourcePattern := { tag := "ObjectProperty" }
  let property ← split "ObjectPropertyPattern" (source.requiring "computed" (.bool false)) [
    .required "key" key,
    .required "value" t.pattern,
    .withDefault "shorthand" t.boolean (.bool false),
    t.bindingNames (boundBy ["value"]),
    t.freeVariables (freeIn ["value"])]
  let computedProperty ← split "ComputedObjectPropertyPattern"
    (source.requiring "computed" (.bool true)) [
    .required "key" t.expression,
    .required "value" t.pattern,
    t.bindingNames (boundBy ["value"]),
    t.freeVariables (freeIn ["key", "value"])]
  let property ← Builder.union "ObjectPatternProperty" [property, computedProperty]
  let properties ← Builder.arrayOf property
  let object ← plain "ObjectPattern" [
    .required "properties" properties,
    (Field.required "restProperty" maybeRest).extracted (.rest "properties"),
    t.bindingNames (boundBy ["properties", "restProperty"]),
    t.freeVariables (freeIn ["properties", "restProperty"])]
  let hole ← Builder.nullable t.pattern
  let elements ← Builder.arrayOf hole
  let array ← plain "ArrayPattern" [
    .required "elements" elements,
    (Field.required "restElement" maybeRest).extracted (.rest "elements"),
    t.bindingNames (boundBy ["elements", "restElement"]),
    t.freeVariables (freeIn ["elements", "restElement"])]
  let assignment ← plain "AssignmentPattern" [
    .required "left" t.pattern,
    .required "right" t.expression,
    t.bindingNames (boundBy ["left"]),
    t.freeVariables (freeIn ["left", "right"])]
  let _ ← plain "RestElement" [
    .required "argument" t.pattern,
    t.bindingNames (boundBy ["argument"]),
    t.freeVariables (freeIn ["argument"])]
  let staticMember ← Builder.declare "StaticMemberExpression"
  let computedMember ← Builder.declare "ComputedMemberExpression"
  Builder.define t.pattern
    (.union [identifier, object, array, assignment, staticMember, computedMember])
  let _ ← Builder.union "DestructuringPattern" [object, array, assignment]
  let _ ← Builder.union "AssignmentTarget"
    [identifier, object, array, staticMember, computedMember]

end Catalogue

end TypedTree
