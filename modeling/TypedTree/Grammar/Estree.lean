/-
The grammar of the ESTree family of syntax trees.

Main definition:

* `Grammar.estree` — 38 node types and their alias groups, for syntax trees of
  JavaScript programs.
-/
import TypedTree.Grammar.Basic

namespace TypedTree

namespace Grammar.Estree

/-- A field that has to be there. -/
def field (name : String) (descriptor : Descriptor) : GrammarField :=
  { name, descriptor := some descriptor }

/-- A field that may be absent or `null`. -/
def optional (name : String) (descriptor : Descriptor) : GrammarField :=
  { name, descriptor := some descriptor, optional := true }

/-- A field with a value for when it is absent. -/
def defaulted (name : String) (descriptor : Descriptor) (default : Json) : GrammarField :=
  { name, descriptor := some descriptor, default := some default }

/-- Arrays with items of one kind. -/
def arrayOf (item : Descriptor) : Descriptor := .chain [.kind "array", .each item]

/-- The table of the grammar. -/
def table : GrammarTable where
  name := "estree"
  types := [
    ("Program", ⟨["Scopable", "BlockParent", "Block"], [
      field "body" (arrayOf (.nodeTypes ["Statement"])),
      defaulted "directives" (arrayOf (.nodeTypes ["Directive"])) (.arr []),
      defaulted "sourceType" (.oneOf [.str "script", .str "module"]) (.str "script")]⟩),
    ("Directive", ⟨[], [
      field "value" (.nodeTypes ["DirectiveLiteral"])]⟩),
    ("DirectiveLiteral", ⟨[], [
      field "value" (.kind "string")]⟩),
    ("Identifier", ⟨["Expression", "PatternLike", "LVal"], [
      field "name" (.chain [.kind "string", .empty]),
      optional "optional" (.kind "boolean")]⟩),
    ("PrivateName", ⟨[], [
      field "id" (.nodeTypes ["Identifier"])]⟩),
    ("StringLiteral", ⟨["Expression", "Pureish", "Literal", "Immutable"], [
      field "value" (.kind "string")]⟩),
    ("NumericLiteral", ⟨["Expression", "Pureish", "Literal", "Immutable"], [
      field "value" (.kind "number")]⟩),
    ("BooleanLiteral", ⟨["Expression", "Pureish", "Literal", "Immutable"], [
      field "value" (.kind "boolean")]⟩),
    ("NullLiteral", ⟨["Expression", "Pureish", "Literal", "Immutable"], []⟩),
    ("TemplateElement", ⟨[], [
      field "value" (.shapeOf (.obj [("raw", .obj [("type", .str "string")]), ("cooked", .obj
        [("type", .str "string"), ("optional", .bool true)])])),
      defaulted "tail" (.kind "boolean") (.bool false)]⟩),
    ("TemplateLiteral", ⟨["Expression", "Literal"], [
      field "quasis" (arrayOf (.nodeTypes ["TemplateElement"])),
      field "expressions" (arrayOf (.nodeTypes ["Expression"]))]⟩),
    ("TaggedTemplateExpression", ⟨["Expression"], [
      field "tag" (.nodeTypes ["Expression"]),
      field "quasi" (.nodeTypes ["TemplateLiteral"])]⟩),
    ("ThisExpression", ⟨["Expression"], []⟩),
    ("ArrayExpression", ⟨["Expression"], [
      defaulted "elements" (arrayOf (.nodeOrValueTypes ["null", "Expression", "SpreadElement"]))
        (.arr [])]⟩),
    ("ObjectExpression", ⟨["Expression"], [
      field "properties" (arrayOf (.nodeTypes ["ObjectProperty", "SpreadElement"]))]⟩),
    ("ObjectProperty", ⟨["UserWhitespacable", "Property", "ObjectMember"], [
      field "key" (.nodeTypes ["Identifier", "StringLiteral", "NumericLiteral", "Expression"]),
      field "value" (.nodeTypes ["Expression", "PatternLike"]),
      defaulted "computed" (.kind "boolean") (.bool false),
      defaulted "shorthand" (.kind "boolean") (.bool false)]⟩),
    ("SpreadElement", ⟨["UnaryLike"], [
      field "argument" (.nodeTypes ["Expression"])]⟩),
    ("UnaryExpression", ⟨["UnaryLike", "Expression"], [
      field "operator" (.oneOf [.str "void", .str "throw", .str "delete", .str "!", .str "+", .str
        "-", .str "~", .str "typeof"]),
      field "argument" (.nodeTypes ["Expression"]),
      defaulted "prefix" (.kind "boolean") (.bool true)]⟩),
    ("UpdateExpression", ⟨["Expression"], [
      field "operator" (.oneOf [.str "++", .str "--"]),
      field "argument" (.nodeTypes ["Expression"]),
      defaulted "prefix" (.kind "boolean") (.bool false)]⟩),
    ("BinaryExpression", ⟨["Binary", "Expression"], [
      field "operator" (.oneOf [.str "+", .str "-", .str "/", .str "%", .str "*", .str "**", .str
        "&", .str "|", .str ">>", .str ">>>", .str "<<", .str "^", .str "==", .str "===", .str
        "!=", .str "!==", .str "in", .str "instanceof", .str ">", .str "<", .str ">=", .str
        "<="]),
      field "left" (.nodeTypes ["Expression", "PrivateName"]),
      field "right" (.nodeTypes ["Expression"])]⟩),
    ("LogicalExpression", ⟨["Binary", "Expression"], [
      field "operator" (.oneOf [.str "||", .str "&&", .str "??"]),
      field "left" (.nodeTypes ["Expression"]),
      field "right" (.nodeTypes ["Expression"])]⟩),
    ("AssignmentExpression", ⟨["Expression"], [
      field "operator" (.kind "string"),
      field "left" (.nodeTypes ["LVal"]),
      field "right" (.nodeTypes ["Expression"])]⟩),
    ("ConditionalExpression", ⟨["Expression", "Conditional"], [
      field "test" (.nodeTypes ["Expression"]),
      field "consequent" (.nodeTypes ["Expression"]),
      field "alternate" (.nodeTypes ["Expression"])]⟩),
    ("CallExpression", ⟨["Expression"], [
      field "callee" (.nodeTypes ["Expression"]),
      field "arguments" (arrayOf (.nodeTypes ["Expression", "SpreadElement"])),
      optional "optional" (.oneOf [.bool true, .bool false])]⟩),
    ("NewExpression", ⟨["Expression"], [
      field "callee" (.nodeTypes ["Expression"]),
      field "arguments" (arrayOf (.nodeTypes ["Expression", "SpreadElement"]))]⟩),
    ("MemberExpression", ⟨["Expression", "LVal"], [
      field "object" (.nodeTypes ["Expression"]),
      field "property" (.nodeTypes ["Expression", "PrivateName"]),
      defaulted "computed" (.kind "boolean") (.bool false),
      optional "optional" (.oneOf [.bool true, .bool false])]⟩),
    ("SequenceExpression", ⟨["Expression"], [
      field "expressions" (arrayOf (.nodeTypes ["Expression"]))]⟩),
    ("AwaitExpression", ⟨["Expression", "Terminatorless"], [
      field "argument" (.nodeTypes ["Expression"])]⟩),
    ("YieldExpression", ⟨["Expression", "Terminatorless"], [
      defaulted "delegate" (.kind "boolean") (.bool false),
      optional "argument" (.nodeTypes ["Expression"])]⟩),
    ("FunctionExpression", ⟨["Scopable", "Function", "BlockParent", "FunctionParent",
      "Expression", "Pureish"], [
      optional "id" (.nodeTypes ["Identifier"]),
      field "params" (arrayOf (.nodeTypes ["Identifier", "Pattern", "RestElement"])),
      field "body" (.nodeTypes ["BlockStatement"]),
      defaulted "generator" (.kind "boolean") (.bool false),
      defaulted "async" (.kind "boolean") (.bool false)]⟩),
    ("ArrowFunctionExpression", ⟨["Scopable", "Function", "BlockParent", "FunctionParent",
      "Expression", "Pureish"], [
      field "params" (arrayOf (.nodeTypes ["Identifier", "Pattern", "RestElement"])),
      field "body" (.nodeTypes ["BlockStatement", "Expression"]),
      defaulted "async" (.kind "boolean") (.bool false),
      field "expression" (.kind "boolean")]⟩),
    ("BlockStatement", ⟨["Scopable", "BlockParent", "Block", "Statement"], [
      field "body" (arrayOf (.nodeTypes ["Statement"])),
      defaulted "directives" (arrayOf (.nodeTypes ["Directive"])) (.arr [])]⟩),
    ("ExpressionStatement", ⟨["Statement", "ExpressionWrapper"], [
      field "expression" (.nodeTypes ["Expression"])]⟩),
    ("ReturnStatement", ⟨["Statement", "Terminatorless", "CompletionStatement"], [
      optional "argument" (.nodeTypes ["Expression"])]⟩),
    ("AssignmentPattern", ⟨["Pattern", "PatternLike", "LVal"], [
      field "left" (.nodeTypes ["Identifier", "ObjectPattern", "ArrayPattern", "MemberExpression"]),
      field "right" (.nodeTypes ["Expression"])]⟩),
    ("ArrayPattern", ⟨["Pattern", "PatternLike", "LVal"], [
      field "elements" (arrayOf (.nodeOrValueTypes ["null", "PatternLike"]))]⟩),
    ("ObjectPattern", ⟨["Pattern", "PatternLike", "LVal"], [
      field "properties" (arrayOf (.nodeTypes ["RestElement", "ObjectProperty"]))]⟩),
    ("RestElement", ⟨["LVal", "PatternLike"], [
      field "argument" (.nodeTypes ["LVal"])]⟩)]

end Grammar.Estree

/-- The grammar of the ESTree family. -/
def Grammar.estree : Grammar := ofTable Estree.table

end TypedTree
