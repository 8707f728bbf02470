/-
Expressions.

Identifiers are split by position and member accesses by their flag. Parameters bind
their names for a whole function, defaults included. Main definition:

* `Catalogue.expressions` — all expression types and their union.
-/
import TypedTree.Catalogue.Basic

namespace TypedTree

namespace Catalogue

/-- Literals have no free variables. -/
def literals (t : Common) : Building Unit := do
  let _ ← plain "StringLiteral" [.required "value" t.string, t.noFreeVariables]
  let _ ← plain "NumericLiteral" [.required "value" t.number, t.noFreeVariables]
  let _ ← plain "BooleanLiteral" [.required "value" t.boolean, t.noFreeVariables]
  let _ ← plain "NullLiteral" [t.noFreeVariables]

/-- An identifier in the position of an expression uses its name; as a key or as the
property of a member access it is a mere name. -/
def identifiers (t : Common) : Building Unit := do
  let _ ← split "IdentifierExpression" { tag := "Identifier" }
    [.required "name" t.string, t.freeVariables (SetExpr.name {} "name")]
  let _ ← split "PropertyName" { tag := "Identifier" }
    [.required "name" t.string, t.noFreeVariables]

/-- Operators. Names that are assigned to belong to bindings outside the expression. -/
def operators (t : Common) : Building Unit := do
  let unary (name : String) (leading : Bool) := plain name [
    .required "operator" t.string,
    .required "argument" t.expression,
    .withDefault "prefix" t.boolean (.bool leading),
    t.freeVariables (freeIn ["argument"])]
  let _ ← unary "UnaryExpression" true
  let _ ← unary "UpdateExpression" false
  let binary (name : String) := plain name [
    .required "operator" t.string,
    .required "left" t.expression,
    .required "right" t.expression,
    t.freeVariables (freeIn ["left", "right"])]
  let _ ← binary "BinaryExpression"
  let _ ← binary "LogicalExpression"
  let target ← Builder.declare "AssignmentTarget"
  let _ ← plain "AssignmentExpression" [
    .required "operator" t.string,
    .required "left" target,
    .required "right" t.expression,
    t.freeVariables ((freeIn ["left", "right"]).take "left" TypedTree.bindingNames)]
  let _ ← plain "ConditionalExpression" [
    .required "test" t.expression,
    .required "consequent" t.expression,
    .required "alternate" t.expression,
    t.freeVariables (freeIn ["test", "consequent", "alternate"])]

/-- Calls and member accesses. The property of a static access is a mere name. -/
def callsAndMembers (t : Common) : Building Unit := do
  let spread ← Builder.declare "SpreadElement"
  let _ ← plain "SpreadElement"
    [.required "argument" t.expression, t.freeVariables (freeIn ["argument"])]
  let argument ← Builder.unionOf [t.expression, spread]
  let arguments ← Builder.arrayOf argument
  let optional ← Builder.nullable t.boolean
  let _ ← plain "CallExpression" [
    .required "callee" t.expression,
    .required "arguments" arguments,
    .withDefault "optional" optional .null,
    t.freeVariables (freeIn ["callee", "arguments"])]
  let _ ← plain "NewExpression" [
    .required "callee" t.expression,
    .required "arguments" arguments,
    t.freeVariables (freeIn ["callee", "arguments"])]
  let propertyName ← Builder.declare "PropertyName"
  let member : SourcePattern := { tag := "MemberExpression" }
  let _ ← split "StaticMemberExpression" (member.requiring "computed" (.bool false)) [
    .required "object" t.expression,
    .required "property" propertyName,
    .withDefault "optional" optional .null,
    t.flag "computed" false,
    t.freeVariables (freeIn ["object"])]
  let _ ← split "ComputedMemberExpression" (member.requiring "computed" (.bool true)) [
    .required "object" t.expression,
    .required "property" t.expression,
    .withDefault "optional" optional .null,
    t.flag "computed" true,
    t.freeVariables (freeIn ["object", "property"])]

/-- Expressions made of several others. -/
def compounds (t : Common) : Building Unit := do
  let spread ← Builder.declare "SpreadElement"
  let element ← Builder.unionOf [t.expression, spread]
  let element ← Builder.nullable element
  let elements ← Builder.arrayOf element
  let _ ← plain "ArrayExpression"
    [.withDefault "elements" elements (.list []), t.freeVariables (freeIn ["elements"])]
  let expressions ← Builder.arrayOf t.expression
  let _ ← plain "SequenceExpression"
    [.required "expressions" expressions, t.freeVariables (freeIn ["expressions"])]
  let _ ← plain "ThisExpression" [t.noFreeVariables]
  let _ ← plain "AwaitExpression"
    [.required "argument" t.expression, t.freeVariables (freeIn ["argument"])]
  let maybeExpression ← Builder.nullable t.expression
  let _ ← plain "YieldExpression" [
    .withDefault "delegate" t.boolean (.bool false),
    .withDefault "argument" maybeExpression .null,
    t.freeVariables (freeIn ["argument"])]
  let templateElement ← Builder.declare "TemplateElement"
  let quasis ← Builder.arrayOf templateElement
  let template ← plain "TemplateLiteral" [
    .required "quasis" quasis,
    .required "expressions" expressions,
    t.freeVariables (freeIn ["expressions"])]
  let _ ← plain "TaggedTemplateExpression" [
    .required "tag" t.expression,
    .required "quasi" template,
    t.freeVariables (freeIn ["tag", "quasi"])]

/-- The names free in a function: those of its body and parameters that its parameters
do not bind. -/
def functionScope : SetExpr :=
  ((((freeIn ["body"]).take "parameters" TypedTree.freeVariables).take
    "restParameter" TypedTree.freeVariables).subtract
    "parameters" TypedTree.bindingNames).subtract
    "restParameter" TypedTree.bindingNames

/-- Functions. A trailing rest parameter has a field of its own. -/
def functions (t : Common) : Building Unit := do
  let parameters ← Builder.arrayOf t.pattern
  let rest ← Builder.declare "RestElement"
  let rest ← Builder.nullable rest
  let block ← Builder.declare "BlockStatement"
  let identifier ← Builder.declare "IdentifierPattern"
  let id ← Builder.nullable identifier
  let _ ← plain "FunctionExpression" [
    .withDefault "id" id .null,
    (Field.required "parameters" parameters).fromKey "params",
    (Field.required "restParameter" rest).extracted (.rest "params"),
    .required "body" block,
    .withDefault "generator" t.boolean (.bool false),
    .withDefault "async" t.boolean (.bool false),
    t.freeVariables ((functionScope.subtract "id" TypedTree.bindingNames).exclude ["arguments"])]
  let body ← Builder.union "ArrowFunctionBody" [block, t.expression]
  let _ ← plain "ArrowFunctionExpression" [
    .computed "id" id (.always .null),
    (Field.required "parameters" parameters).fromKey "params",
    (Field.required "restParameter" rest).extracted (.rest "params"),
    .required "body" body,
    .withDefault "async" t.boolean (.bool false),
    .withDefault "expression" t.boolean (.bool false),
    t.flag "generator" false,
    t.freeVariables functionScope]

/-- The alternatives of an expression. -/
def expressionNames : List String :=
  ["IdentifierExpression", "StringLiteral", "NumericLiteral", "BooleanLiteral", "NullLiteral",
    "TemplateLiteral", "TaggedTemplateExpression", "ThisExpression", "ArrayExpression",
    "ObjectExpression", "UnaryExpression", "UpdateExpression", "BinaryExpression",
    "LogicalExpression", "AssignmentExpression", "ConditionalExpression", "CallExpression",
    "NewExpression", "StaticMemberExpression", "ComputedMemberExpression", "SequenceExpression",
    "AwaitExpression", "YieldExpression", "FunctionExpression", "ArrowFunctionExpression"]

/-- All expressions. -/
def expressions (t : Common) : Building Unit := do
  literals t
  identifiers t
  operators t
  callsAndMembers t
  compounds t
  functions t
  let alternatives ← expressionNames.mapM Builder.declare
  Builder.define t.expression (.union alternatives)

end Catalogue

end TypedTree
