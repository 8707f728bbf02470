/-
Types of translated values.

A type has a name and a shape. Main definitions:

* `Product` — read from a tagged record, field by field;
* `Shape` — primitives, arrays, nullables, sets of names, products, unions resolved
  in order, and inspect shapes, which choose by the translated value of one field;
* `Shape.samePath` — the types that a shape hands the same source value to.
-/
import TypedTree.Attribute

namespace TypedTree

/-- A kind of plain value. -/
inductive Primitive where
  | string
  | number
  | boolean
  | null
  | any
deriving DecidableEq, Repr

namespace Primitive

/-- All primitives. -/
def all : List Primitive := [string, number, boolean, null, any]

/-- The name of a primitive. -/
def name : Primitive → String
  | string => "string"
  | number => "number"
  | boolean => "boolean"
  | null => "null"
  | any => "any"

/-- The primitive of a name. -/
def ofName? (name : String) : Option Primitive := all.find? (·.name == name)

/-- The primitive of a literal's kind: arrays and objects may be anything. -/
def ofLiteral : Json → Primitive
  | .null => null
  | .bool _ => boolean
  | .num _ => number
  | .str _ => string
  | .arr _ | .obj _ => any

/-- Whether a source value is of this kind. -/
def accepts : Primitive → Json → Bool
  | string, .str _ => true
  | number, .num _ => true
  | boolean, .bool _ => true
  | null, .null => true
  | any, _ => true
  | _, _ => false

/-- Whether a translated value is of this kind. -/
def holds : Primitive → Value → Bool
  | string, .string _ => true
  | number, .number _ => true
  | boolean, .bool _ => true
  | null, .null => true
  | any, _ => true
  | _, _ => false

end Primitive

/-! ### Rest elements -/

/-- Whether this is a record whose tag begins with `Rest`. -/
def Json.isRest (value : Json) : Bool :=
  match value.tag? with
  | some tag => "Rest".toList.isPrefixOf tag.toList
  | none => false

/-- The items without a rest element at their end, which the owner of the list takes
up in a field of its own. -/
def stripRest (items : List Json) : List Json :=
  match items.getLast? with
  | some last => if last.isRest then items.dropLast else items
  | none => items

/-- The rest element at the end of the array under `key`, else `null`. -/
def restUnder (key : String) (record : Json.Record) : Json :=
  match record.get? key with
  | some (.arr items) =>
    match items.getLast? with
    | some last => if last.isRest then last else .null
    | none => .null
  | _ => .null

/-! ### Products -/

/-- What a record has to look like to be read as a product: its tag, and the exact
values of further entries. -/
structure SourcePattern where
  tag : String
  literals : List (String × Json) := []

/-- The pattern with one more required value. -/
def SourcePattern.requiring (pattern : SourcePattern) (key : String) (literal : Json) :
    SourcePattern :=
  { pattern with literals := pattern.literals ++ [(key, literal)] }

/-- A value made from a whole source record. -/
inductive Extraction where
  /-- The rest element at the end of an array. -/
  | rest (key : String)
  /-- Any other function of the record, which is said to read the given keys. -/
  | custom (keys : List String) (extract : Json.Record → Json)

namespace Extraction

/-- The value made from a record. -/
def apply : Extraction → Json.Record → Json
  | rest key, record => restUnder key record
  | custom _ extract, record => extract record

/-- The step under which the value is reported in paths. -/
def pathKey : Extraction → String
  | rest key => key
  | custom keys _ => ",".intercalate keys

end Extraction

/-- Where a field that is not computed reads from. -/
inductive FieldSource where
  | key (key : String)
  | extract (extraction : Extraction)

/-- How a field gets its value. -/
inductive Population where
  /-- Translated; absence is an error unless the type accepts it. -/
  | required
  /-- Translated, unless the source is absent or `null`. -/
  | default (value : Value)
  /-- Derived from sibling fields. -/
  | computed (rule : Computed)

/-- A field of a product. -/
structure Field where
  name : String
  type : TypeId
  population : Population := .required
  source : FieldSource := .key name

namespace Field

/-- A field that has to be in the source. -/
def required (name : String) (type : TypeId) : Field := { name, type }

/-- A field with a value for when the source has none. -/
def withDefault (name : String) (type : TypeId) (value : Value) : Field :=
  { name, type, population := .default value }

/-- A field derived from its siblings. -/
def computed (name : String) (type : TypeId) (rule : Computed) : Field :=
  { name, type, population := .computed rule }

/-- The field read from another key than its name. -/
def fromKey (field : Field) (key : String) : Field := { field with source := .key key }

/-- The field read from a value made from the whole record. -/
def extracted (field : Field) (extraction : Extraction) : Field :=
  { field with source := .extract extraction }

/-- The rule of a computed field. -/
def rule? (field : Field) : Option Computed :=
  match field.population with
  | .computed rule => some rule
  | _ => none

/-- Whether the field is derived from its siblings. -/
def isComputed (field : Field) : Bool := field.rule?.isSome

/-- Whether the field reads a key of the source itself. -/
def readsKey (field : Field) (key : String) : Bool :=
  !field.isComputed &&
    match field.source with
    | .key k => k == key
    | .extract _ => false

end Field

/-- A type of nodes. -/
structure Product where
  source : SourcePattern
  fields : List Field

/-! ### Shapes -/

/-- One choice of an inspect shape: the type to test for, and the type to build. -/
structure Arm where
  test : TypeId
  target : TypeId

/-- Choice by a field: the field is translated as `probe`, and the first arm whose
test holds of the result gives the type to build. -/
structure Inspect where
  field : String
  probe : TypeId
  arms : List Arm

/-- The body of a type. -/
inductive Shape where
  | primitive (kind : Primitive)
  | array (item : TypeId)
  | nullable (inner : TypeId)
  | nameSet
  | product (product : Product)
  | union (alternatives : List TypeId)
  | inspect (inspect : Inspect)

namespace Shape

/-- The types that are asked to translate the same source value: alternatives of a
union, targets of an inspect shape, the inside of a nullable. -/
def samePath : Shape → List TypeId
  | union alternatives => alternatives
  | inspect i => i.arms.map (·.target)
  | nullable inner => [inner]
  | primitive _ | array _ | nameSet | product _ => []

/-- The product that a shape is. -/
def asProduct? : Shape → Option Product
  | product p => some p
  | _ => none

end Shape

end TypedTree
