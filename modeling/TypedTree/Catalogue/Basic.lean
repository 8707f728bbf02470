/-
What the parts of the catalogue share.

The catalogue refines the schema of the ESTree grammar: it splits types by their
position and flags, lifts rest elements into fields of their own, and computes which
names are free and which are bound. Main definitions:

* `Catalogue.Common` — the types that every part refers to;
* `Catalogue.Common.freeVariables` and its neighbours — the computed fields.
-/
import TypedTree.Grammar.Estree
import TypedTree.Synthesis

namespace TypedTree

namespace Catalogue

/-- The types that every part refers to. -/
structure Common where
  string : TypeId
  number : TypeId
  boolean : TypeId
  names : TypeId
  expression : TypeId
  pattern : TypeId
  statement : TypeId

/-- Declares the common types. -/
def common : Building Common := do
  return {
    string := ← Builder.primitive .string
    number := ← Builder.primitive .number
    boolean := ← Builder.primitive .boolean
    names := ← Builder.nameSet
    expression := ← Builder.declare "Expression"
    pattern := ← Builder.declare "Pattern"
    statement := ← Builder.declare "Statement" }

namespace Common

/-- The free variables of a node, by a set expression. -/
def freeVariables (t : Common) (expr : SetExpr) : Field :=
  .computed TypedTree.freeVariables t.names (.names expr)

/-- No free variables. -/
def noFreeVariables (t : Common) : Field :=
  .computed TypedTree.freeVariables t.names .emptySet

/-- The names that a pattern binds, by a set expression. -/
def bindingNames (t : Common) (expr : SetExpr) : Field :=
  .computed TypedTree.bindingNames t.names (.names expr)

/-- A flag whose value the source pattern settles. -/
def flag (t : Common) (name : String) (value : Bool) : Field :=
  .computed name t.boolean (.always (.bool value))

end Common

/-- The names that are free in any of the fields. -/
def freeIn (fields : List String) : SetExpr := .takeAll freeVariables fields

/-- The names that any of the fields binds. -/
def boundBy (fields : List String) : SetExpr := .takeAll bindingNames fields

/-- Defines a type of nodes that reads records tagged with its own name. -/
def plain (name : String) (fields : List Field) : Building TypeId :=
  Builder.product name { source := { tag := name }, fields }

/-- Defines a type of nodes by another source pattern. -/
def split (name : String) (source : SourcePattern) (fields : List Field) : Building TypeId :=
  Builder.product name { source, fields }

end Catalogue

end TypedTree
