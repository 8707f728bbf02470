/-
Attributes derived from sibling fields.

A computed field names the siblings it reads and a rule over their values. Most
rules are algebra on sets of names. Main definitions:

* `Value.namesUnder` — the names a value contributes under an attribute: those of
  every node reached through lists;
* `SetExpr` — terms that add and take away such names; additions come first
  whatever the order of the terms. They refer to fields by slots, which fields get in the
  order of first mention;
* `Computed` — a rule with the fields it depends on, and its evaluation.
-/
import TypedTree.Value.Basic

namespace TypedTree

/-- The attribute of names used but not bound within a subtree. -/
def freeVariables : String := "freeVariables"

/-- The attribute of names that a pattern introduces. -/
def bindingNames : String := "bindingNames"

namespace Value

mutual

/-- The names that a value contributes under an attribute. A list contributes what
its items do, a node the set it holds there, a set of names itself. -/
def namesUnder (attr : String) : Value → NameSet
  | list items => namesUnderItems attr items
  | node _ _ fields _ =>
    match fields.lookup attr with
    | some (names set) => set
    | _ => .empty
  | names set => set
  | _ => .empty

/-- The names that items contribute together. -/
def namesUnderItems (attr : String) : List Value → NameSet
  | [] => .empty
  | item :: rest => (namesUnder attr item).union (namesUnderItems attr rest)

end

end Value

/-! ### Set expressions -/

/-- One step of a set expression. It refers to a field by name or by slot. -/
inductive SetTerm (ref : Type) where
  /-- Adds the names of a field under an attribute. -/
  | take (field : ref) (attr : String)
  /-- Adds the text of a string field. -/
  | name (field : ref)
  /-- Takes away the names of a field under an attribute. -/
  | subtract (field : ref) (attr : String)
  /-- Takes away fixed names. -/
  | exclude (names : NameSet)

namespace SetTerm

variable {ref ref' : Type}

/-- The field that a term reads. -/
def field? : SetTerm ref → Option ref
  | take field _ | name field | subtract field _ => some field
  | exclude _ => none

/-- The term that refers to its field in another way. -/
def map (f : ref → ref') : SetTerm ref → SetTerm ref'
  | take field attr => take (f field) attr
  | name field => name (f field)
  | subtract field attr => subtract (f field) attr
  | exclude names => exclude names

theorem field?_map (f : ref → ref') (term : SetTerm ref) :
    (term.map f).field? = term.field?.map f := by
  cases term <;> rfl

/-- The names that a term adds, given the fields' values. -/
def added (values : ref → Value) : SetTerm ref → NameSet
  | take field attr => (values field).namesUnder attr
  | name field =>
    match values field with
    | .string s => NameSet.empty.insert s
    | _ => .empty
  | subtract _ _ | exclude _ => .empty

/-- The names that a term takes away, given the fields' values. -/
def removed (values : ref → Value) : SetTerm ref → NameSet
  | subtract field attr => (values field).namesUnder attr
  | exclude names => names
  | take _ _ | name _ => .empty

end SetTerm

/-- The slot of a field, and the fields by slot. A field that has none gets the next one. -/
def slotOf (fields : List String) (field : String) : Nat × List String :=
  match fields.findIdx? (· == field) with
  | some slot => (slot, fields)
  | none => (fields.length, fields ++ [field])

theorem slotOf_snd (fields : List String) (field : String) :
    (slotOf fields field).2 = if field ∈ fields then fields else fields ++ [field] := by
  rw [slotOf]
  cases hfind : fields.findIdx? (· == field) with
  | none =>
    have hnew : field ∉ fields := fun hmem => by
      simpa using List.findIdx?_eq_none_iff.mp hfind field hmem
    rw [if_neg hnew]
  | some slot =>
    obtain ⟨hlt, heq, -⟩ := List.findIdx?_eq_some_iff_getElem.mp hfind
    rw [if_pos (List.mem_of_getElem (by simpa using heq))]

theorem prefix_slotOf (fields : List String) (field : String) :
    fields <+: (slotOf fields field).2 := by
  rw [slotOf_snd]
  split
  · exact List.prefix_rfl
  · exact List.prefix_append _ _

/-- In its slot, a field is found. -/
theorem getElem?_slotOf (fields : List String) (field : String) :
    (slotOf fields field).2[(slotOf fields field).1]? = some field := by
  rw [slotOf]
  cases hfind : fields.findIdx? (· == field) with
  | none => exact List.getElem?_concat_length
  | some slot =>
    obtain ⟨hlt, heq, -⟩ := List.findIdx?_eq_some_iff_getElem.mp hfind
    exact List.getElem?_eq_some_iff.mpr ⟨hlt, by simpa using heq⟩

/-- The terms refer to slots of the fields only. -/
def SlotsIn (fields : List String) (terms : List (SetTerm Nat)) : Prop :=
  ∀ term ∈ terms, ∀ slot ∈ term.field?, slot < fields.length

theorem slotsIn_nil : SlotsIn [] [] := List.forall_mem_nil _

/-- Algebra on sets of names, as a list of terms over slots. -/
structure SetExpr where
  /-- The fields that the terms mention. The slot of a field is its place here. -/
  fields : List String := []
  terms : List (SetTerm Nat) := []
  slotsIn : SlotsIn fields terms := by exact slotsIn_nil

namespace SetExpr

/-- The fields with that of one more term. -/
def fieldsWith (expr : SetExpr) (term : SetTerm String) : List String :=
  match term.field? with
  | some field => (slotOf expr.fields field).2
  | none => expr.fields

theorem prefix_fieldsWith (expr : SetExpr) (term : SetTerm String) :
    expr.fields <+: expr.fieldsWith term := by
  rw [fieldsWith]
  split
  · exact prefix_slotOf _ _
  · exact List.prefix_rfl

/-- In the slot of its field, a term finds the field. -/
theorem getElem?_fieldsWith (expr : SetExpr) {term : SetTerm String} {field : String}
    (h : field ∈ term.field?) :
    (expr.fieldsWith term)[(slotOf expr.fields field).1]? = some field := by
  rw [fieldsWith, Option.mem_def.mp h]
  exact getElem?_slotOf _ _

/-- One more term, which refers to its field by the slot. -/
def push (expr : SetExpr) (term : SetTerm String) : SetExpr where
  fields := expr.fieldsWith term
  terms := expr.terms ++ [term.map fun field => (slotOf expr.fields field).1]
  slotsIn := by
    intro t ht slot hslot
    rcases List.mem_append.mp ht with ht | ht
    · exact Nat.lt_of_lt_of_le (expr.slotsIn t ht slot hslot)
        (expr.prefix_fieldsWith term).length_le
    · rw [List.mem_singleton.mp ht, SetTerm.field?_map] at hslot
      obtain ⟨field, hfield, rfl⟩ := Option.map_eq_some_iff.mp hslot
      exact (List.getElem?_eq_some_iff.mp (expr.getElem?_fieldsWith hfield)).1

/-- Adds the names of a field under an attribute. -/
def take (expr : SetExpr) (field attr : String) : SetExpr := expr.push (.take field attr)

/-- Adds the text of a string field. -/
def name (expr : SetExpr) (field : String) : SetExpr := expr.push (.name field)

/-- Takes away the names of a field under an attribute. -/
def subtract (expr : SetExpr) (field attr : String) : SetExpr := expr.push (.subtract field attr)

/-- Takes away fixed names. -/
def exclude (expr : SetExpr) (names : List String) : SetExpr :=
  expr.push (.exclude (.ofList names))

/-- Adds the names of several fields under one attribute. -/
def takeAll (attr : String) (fields : List String) : SetExpr :=
  fields.foldl (fun expr field => expr.take field attr) {}

/-- The value in a slot. -/
def valueAt (args : List Value) (slot : Nat) : Value := args[slot]?.getD .null

/-- All names added, less all names taken away, given the values in the slots. -/
def evaluate (expr : SetExpr) (args : List Value) : NameSet :=
  let added := expr.terms.foldl (fun acc term => acc.union (term.added (valueAt args))) .empty
  expr.terms.foldl (fun acc term => acc.diff (term.removed (valueAt args))) added

end SetExpr

/-! ### Computed fields -/

/-- The rule of a computed field. -/
inductive Computed where
  /-- The same value always. -/
  | always (value : Value)
  /-- A set of names over sibling fields. -/
  | names (expr : SetExpr)
  /-- Any other function of the values of the named fields, in that order. -/
  | custom (fields : List String) (compute : List Value → Value)

namespace Computed

/-- The set without names. -/
def emptySet : Computed := always (.names .empty)

/-- The sibling fields that a rule reads. -/
def dependencies : Computed → List String
  | always _ => []
  | names expr => expr.fields
  | custom fields _ => fields

/-- The value of a rule, given the values of its dependencies in their order. -/
def evaluate (computed : Computed) (args : List Value) : Value :=
  match computed with
  | always value => value
  | names expr => .names (expr.evaluate args)
  | custom _ compute => compute args

end Computed

end TypedTree
