/-
Schemas under construction.

Names are declared first and get the next free handle; bodies come later and may be
replaced, so types can refer to each other in circles. Structural types are known by
a name made from their parts and keep their first body. Main definitions:

* `Builder` — the declarations so far;
* `Building` — computations that declare and define types;
* `Builder.declare`, `Builder.define` — the two phases;
* `Builder.arrayOf`, `Builder.nullable`, `Builder.unionOf` — structural types.
-/
import TypedTree.Schema.Basic

namespace TypedTree

/-- A declared name and the body it may have. -/
structure Declaration where
  name : String
  body : Option Shape := none
  /-- Whether the name was first given to a structural type. -/
  structural : Bool := false

/-- A table of names with their handles, which are their positions. -/
structure NameTable (names : List String) where
  entries : List (String × TypeId)
  entries_eq : entries = names.mapIdx fun i name => (name, ⟨i⟩)

namespace NameTable

/-- The table of the given names. -/
def ofNames (names : List String) : NameTable names := ⟨_, rfl⟩

/-- The handle of a name. -/
def find? {names : List String} (table : NameTable names) (name : String) : Option TypeId :=
  table.entries.lookup name

theorem find?_eq {names : List String} (table : NameTable names) (name : String) :
    table.find? name = (names.findIdx? (· == name)).map TypeId.mk := by
  -- The tail of a table starts with a later handle.
  have hfrom : ∀ start, (names.mapIdx fun i n => (n, TypeId.mk (i + start))).lookup name =
      (names.findIdx? (· == name)).map fun i => ⟨i + start⟩ := by
    clear table
    induction names with
    | nil => exact fun _ => rfl
    | cons n names ih =>
      intro start
      rw [List.mapIdx_cons, List.lookup_cons, List.findIdx?_cons, BEq.comm]
      cases n == name with
      | true => simp
      | false => simpa [Nat.add_assoc, Nat.add_comm 1, Function.comp_def] using ih (start + 1)
  rw [find?, table.entries_eq]
  exact hfrom 0

end NameTable

/-- A schema under construction: its declarations in order, and the table in which names are
looked up. -/
structure Builder where
  declarations : List Declaration := []
  table : NameTable (declarations.map (·.name)) := .ofNames _

/-- A computation that declares and defines types. -/
abbrev Building := StateM Builder

namespace Builder

/-- The declarations say all, since the table follows from them. -/
theorem eq_of_declarations : ∀ {b b' : Builder}, b.declarations = b'.declarations → b = b'
  | ⟨_, ⟨_, rfl⟩⟩, ⟨_, ⟨_, rfl⟩⟩, rfl => rfl

/-! ### Look-up -/

/-- The number of declared types. -/
def size (b : Builder) : Nat := b.declarations.length

/-- The handle of a declared name. -/
def find? (b : Builder) (name : String) : Option TypeId := b.table.find? name

theorem find?_eq (b : Builder) (name : String) :
    b.find? name = ((b.declarations.map (·.name)).findIdx? (· == name)).map TypeId.mk :=
  b.table.find?_eq name

/-- The declaration behind a handle. -/
def declaration? (b : Builder) (id : TypeId) : Option Declaration := b.declarations[id.index]?

/-- The name of a declared type. -/
def name (b : Builder) (id : TypeId) : String := ((b.declaration? id).map (·.name)).getD ""

/-- The body of a type, once it has one. -/
def body? (b : Builder) (id : TypeId) : Option Shape := (b.declaration? id).bind (·.body)

/-- Whether a type has a body. -/
def isDefined (b : Builder) (id : TypeId) : Bool := (b.body? id).isSome

/-! ### Declaring and defining -/

/-- The schema with one more declaration, whose name gets the next handle. -/
def append (b : Builder) (d : Declaration) : Builder where
  declarations := b.declarations ++ [d]
  table := ⟨b.table.entries ++ [(d.name, ⟨b.size⟩)], by
    rw [b.table.entries_eq, List.map_append, List.map_singleton, List.mapIdx_concat,
      List.length_map, size]⟩

/-- The handle of a name, which is declared if it is new. -/
def declareAs (structural : Bool) (name : String) : Building TypeId := fun b =>
  match b.find? name with
  | some id => (id, b)
  | none => (⟨b.size⟩, b.append { name, structural })

/-- The handle of a name given by hand. -/
def declare (name : String) : Building TypeId := declareAs false name

theorem map_name_modify (declarations : List Declaration) (index : Nat) (shape : Shape) :
    (declarations.modify index fun d => { d with body := some shape }).map (·.name) =
      declarations.map (·.name) := by
  refine List.ext_getElem? fun i => ?_
  rw [List.getElem?_map, List.getElem?_map, List.getElem?_modify]
  by_cases h : index = i <;> cases declarations[i]? <;> simp [h]

/-- Gives a type its body, in place of any it had. -/
def define (id : TypeId) (shape : Shape) : Building Unit := fun b =>
  ((), {
    declarations := b.declarations.modify id.index fun d => { d with body := some shape }
    table := ⟨b.table.entries, by rw [map_name_modify, b.table.entries_eq]⟩ })

/-- Declares a structural type and gives it a body unless it has one. -/
def intern (name : String) (shape : Shape) : Building TypeId := do
  let id ← declareAs true name
  if (← get).isDefined id then
    return id
  define id shape
  return id

/-! ### Structural types -/

/-- The type of a kind of plain value. -/
def primitive (kind : Primitive) : Building TypeId := intern kind.name (.primitive kind)

/-- The type of lists. -/
def arrayOf (item : TypeId) : Building TypeId := do
  intern ("Array<" ++ (← get).name item ++ ">") (.array item)

/-- The type with `null` added. It is the type itself where `null` is there already. -/
def nullable (inner : TypeId) : Building TypeId := do
  match (← get).body? inner with
  | some (.nullable _) | some (.primitive .null) => return inner
  | _ => intern ("Nullable<" ++ (← get).name inner ++ ">") (.nullable inner)

/-- The type of sets of names. -/
def nameSet : Building TypeId := intern "StringSet" .nameSet

/-- The members without repetitions, in the order of first mention. -/
def distinct (members : List TypeId) : List TypeId :=
  members.foldl (fun seen id => if id ∈ seen then seen else seen ++ [id]) []

/-- The union of the members, named after them. A single member is the union
itself. -/
def unionOf (members : List TypeId) : Building TypeId := do
  match distinct members with
  | [single] => return single
  | alternatives =>
    let b ← get
    intern (" | ".intercalate (alternatives.map b.name)) (.union alternatives)

/-! ### Named types -/

/-- Declares a name and gives it a body. -/
def named (name : String) (shape : Shape) : Building TypeId := do
  let id ← declare name
  define id shape
  return id

/-- A type of nodes. -/
def product (name : String) (product : Product) : Building TypeId := named name (.product product)

/-- A union with a name of its own. -/
def union (name : String) (alternatives : List TypeId) : Building TypeId :=
  named name (.union alternatives)

/-- A choice by the value of a field. -/
def inspect (name : String) (inspect : Inspect) : Building TypeId := named name (.inspect inspect)

end Builder

end TypedTree
