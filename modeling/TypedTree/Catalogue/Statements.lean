/-
Statements.

Main definition:

* `Catalogue.statements` — blocks, expression statements and returns, and their union.
-/
import TypedTree.Catalogue.Basic

namespace TypedTree

namespace Catalogue

/-- All statements. -/
def statements (t : Common) : Building Unit := do
  let body ← Builder.arrayOf t.statement
  let directive ← Builder.declare "Directive"
  let directives ← Builder.arrayOf directive
  let block ← plain "BlockStatement" [
    .required "body" body,
    .withDefault "directives" directives (.list []),
    t.freeVariables (freeIn ["body"])]
  let expression ← plain "ExpressionStatement"
    [.required "expression" t.expression, t.freeVariables (freeIn ["expression"])]
  let argument ← Builder.nullable t.expression
  let ret ← plain "ReturnStatement"
    [.withDefault "argument" argument .null, t.freeVariables (freeIn ["argument"])]
  Builder.define t.statement (.union [block, expression, ret])

end Catalogue

end TypedTree
