/-
Translated values.

A value is what a source tree becomes under a schema. Main definitions:

* `Value.node` — a constructed product, with its fields in the order of its type;
* `Value.ofLiteral` — the value that a literal stands for;
* `Value.toJson` — a value written back, nodes tagged with the name of their type.
-/
import TypedTree.Entries
import TypedTree.TypeId
import TypedTree.NameSet
import TypedTree.Value.Metadata

namespace TypedTree

/-- A translated value. -/
inductive Value where
  | null
  | bool (value : Bool)
  | number (value : Number)
  | string (value : String)
  /-- Source carried along as it is. -/
  | any (source : Json)
  | list (items : List Value)
  | names (set : NameSet)
  | node (id : TypeId) (typeName : String) (fields : List (String × Value))
      (metadata : Option Metadata)

/-- The parts of a node. -/
structure Node where
  id : TypeId
  typeName : String
  fields : List (String × Value)
  metadata : Option Metadata

namespace Node

/-- The value of a field. -/
def get? (node : Node) (field : String) : Option Value := node.fields.lookup field

/-- The node as a value. -/
def toValue (node : Node) : Value := .node node.id node.typeName node.fields node.metadata

end Node

namespace Value

instance : Inhabited Value := ⟨null⟩

/-! ### Parts -/

/-- The node that a value is. -/
def asNode? : Value → Option Node
  | node id typeName fields metadata => some ⟨id, typeName, fields, metadata⟩
  | _ => none

/-- The text of a string. -/
def asString? : Value → Option String
  | string s => some s
  | _ => none

/-- The items of a list. -/
def asList? : Value → Option (List Value)
  | list items => some items
  | _ => none

/-- The members of a set of names. -/
def asNames? : Value → Option NameSet
  | names set => some set
  | _ => none

/-- Whether this is `null`. -/
def isNull : Value → Bool
  | null => true
  | _ => false

/-- The name of a node's type, or of the kind of value. -/
def kindName : Value → String
  | null => "null"
  | bool _ => "boolean"
  | number _ => "number"
  | string _ => "string"
  | any _ => "any"
  | list _ => "array"
  | names _ => "StringSet"
  | node _ typeName _ _ => typeName

/-! ### Literals -/

mutual

/-- The value that a literal stands for: arrays become lists, objects stay as they
are. -/
def ofLiteral : Json → Value
  | .null => null
  | .bool b => bool b
  | .num n => number n
  | .str s => string s
  | .arr items => list (ofLiterals items)
  | .obj entries => any (.obj entries)

/-- The values that literals stand for. -/
def ofLiterals : List Json → List Value
  | [] => []
  | item :: rest => ofLiteral item :: ofLiterals rest

end

/-! ### Writing back -/

mutual

/-- A value written back. A node becomes a record with the name of its type under
`type`, then its fields, then, if wanted, its metadata; a set of names becomes an
increasing array. -/
def toJson (withMetadata : Bool) : Value → Json
  | null => .null
  | bool b => .bool b
  | number n => .num n
  | string s => .str s
  | any source => source
  | list items => .arr (itemsToJson withMetadata items)
  | names set => .arr (set.toList.map .str)
  | node _ typeName fields metadata =>
    let record := Entries.extend [("type", .str typeName)] (fieldsToJson withMetadata fields)
    match withMetadata, metadata with
    | true, some m => .obj (Entries.extend record m.toRecord)
    | _, _ => .obj record

/-- Items written back. -/
def itemsToJson (withMetadata : Bool) : List Value → List Json
  | [] => []
  | item :: rest => toJson withMetadata item :: itemsToJson withMetadata rest

/-- Fields written back. -/
def fieldsToJson (withMetadata : Bool) : List (String × Value) → List (String × Json)
  | [] => []
  | (name, value) :: rest => (name, toJson withMetadata value) :: fieldsToJson withMetadata rest

end

end Value

end TypedTree
