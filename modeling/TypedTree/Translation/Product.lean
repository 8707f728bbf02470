/-
Reading a record as a product, apart from the translation of its fields.

Main definitions:

* `Registry.matchRecord` — the record behind a source value, if it fits the source
  pattern of a product;
* `Registry.readField` — where the value of a field comes from: at once from a default
  or from a value that was translated before, or by translating a part of the source;
* `Product.complete` — the values of all fields from those of the fields that are not
  computed, by the plan of the product.
-/
import TypedTree.Schema.Instance
import TypedTree.Translation.Error

namespace TypedTree

/-- A translated value that stands ready for the fields that read a key. -/
structure Preset where
  key : String
  value : Value

namespace Registry

/-! ### Failures -/

/-- The failure of a type at a path. -/
def mismatch (reg : Registry) (id : TypeId) (path : Path) (source : Option Json) :
    TranslationError :=
  .rejected ⟨.mismatch, .type (reg.name id), path, .of source⟩

/-- The failure of a union that no alternative of which took the source. -/
def exhausted (reg : Registry) (id : TypeId) (path : Path) (source : Option Json) :
    TranslationError :=
  .rejected ⟨.exhausted, .type (reg.name id), path, .of source⟩

/-! ### Source patterns -/

/-- The first required entry that a record does not hold exactly. -/
def firstUnmet? (record : Json.Record) : List (String × Json) → Option (String × Json)
  | [] => none
  | (key, literal) :: rest =>
    match record.get? key with
    | some value => if value.same literal then firstUnmet? record rest else some (key, literal)
    | none => some (key, literal)

/-- The record behind a source value, if it has the tag and the entries that the
source pattern of a product asks for. -/
def matchRecord (reg : Registry) (id : TypeId) (pattern : SourcePattern) (source : Option Json)
    (path : Path) : Except TranslationError Json.Record :=
  match source with
  | some (.obj record) =>
    if Json.Record.tag? record = some pattern.tag then
      match firstUnmet? record pattern.literals with
      | none => .ok record
      | some (key, literal) =>
        .error (.rejected ⟨.mismatch, .literal literal, path, .of (Json.Record.get? record key)⟩)
    else .error (reg.mismatch id path source)
  | _ => .error (reg.mismatch id path source)

/-! ### Fields -/

/-- Where the value of a field comes from. -/
inductive Reading where
  /-- It is settled already. -/
  | settled (result : Except TranslationError Value)
  /-- It is translated from a part of the source. -/
  | translate (source : Option Json) (path : Path)

/-- What stands ready is used as it is; it has to belong to the field's type. -/
def takePreset (reg : Registry) (type : TypeId) (value : Value) (path : Path) :
    Except TranslationError Value :=
  if reg.isInstance type value then .ok value
  else
    let found :=
      match value.asNode? with
      | some node => .node node.typeName
      | none => .value (value.toJson false)
    .error (.rejected ⟨.mismatch, .type (reg.name type), path, found⟩)

/-- A field with a default takes it where the source is missing or `null`. -/
def readSource (field : Field) (source : Option Json) (path : Path) : Reading :=
  match field.population with
  | .default value =>
    if source.all Json.isNull then .settled (.ok value) else .translate source path
  | .required | .computed _ => .translate source path

/-- Where the value of a field that is not computed comes from. -/
def readField (reg : Registry) (field : Field) (record : Json.Record) (path : Path)
    (preset : Option Preset) : Reading :=
  match field.source with
  | .extract extraction =>
    readSource field (some (extraction.apply record)) (path.field extraction.pathKey)
  | .key key =>
    match preset with
    | some p =>
      if p.key = key then .settled (reg.takePreset field.type p.value (path.field key))
      else readSource field (record.get? key) (path.field key)
    | none => readSource field (record.get? key) (path.field key)

end Registry

/-! ### Computed fields -/

namespace Product

/-- The values so far with one more computed field, from the values of its
dependencies. -/
def computeStep (p : Product) (slots : List (Option Value)) (step : ComputeStep) :
    List (Option Value) :=
  match (p.fields[step.field]?).bind Field.rule? with
  | some rule =>
    let args := step.dependencies.filterMap fun dep => slots[dep]?.getD none
    slots.set step.field (some (rule.evaluate args))
  | none => slots

/-- The values of all fields by name, from those of the fields that are not computed. -/
def complete (p : Product) (plan : List ComputeStep) (slots : List (Option Value)) :
    List (String × Value) :=
  List.zipWith (fun field slot => (field.name, slot.getD .null)) p.fields
    (plan.foldl p.computeStep slots)

end Product

end TypedTree
