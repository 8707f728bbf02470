/-
Members of derived sets of names.

Main statements:

* `Value.Holds` — a value is a node, or a list with it somewhere inside;
* `Value.Offers` — a value offers a set under an attribute: a set of names offers itself, a node
  what it holds there, a list what its items do;
* `Value.mem_namesUnder_iff` — the names under an attribute are those of the sets offered;
* `Value.mem_namesUnder` — where no sets are held, they are those of the nodes held;
* `SetExpr.named` — the terms of a set expression with names in place of slots;
* `SetExpr.mem_evaluate` — a name is in a set expression if a term adds it and no term
  takes it away;
* `Computed.evaluate_names` — a set expression over fields reads the values of the fields.
-/
import TypedTree.Proofs.Traversal
import TypedTree.Attribute

namespace TypedTree

namespace Value

/-- The value is the node, or a list with it among its items, or among theirs. -/
inductive Holds : Value → Node → Prop
  | here (n : Node) : Holds n.toValue n
  | item {items : List Value} {v : Value} {n : Node} (mem : v ∈ items) (h : Holds v n) :
      Holds (.list items) n

/-- The value is a set of names, or a list with one among its items, or among theirs. -/
inductive HoldsNames : Value → Prop
  | here (set : NameSet) : HoldsNames (.names set)
  | item {items : List Value} {v : Value} (mem : v ∈ items) (h : HoldsNames v) :
      HoldsNames (.list items)

theorem holds_list_iff {items : List Value} {n : Node} :
    Holds (.list items) n ↔ ∃ v ∈ items, v.Holds n := by
  constructor
  · generalize hv : Value.list items = v
    intro h
    cases h with
    | here => cases hv
    | item mem h =>
      cases hv
      exact ⟨_, mem, h⟩
  · rintro ⟨v, mem, h⟩
    exact .item mem h

theorem holds_toValue_iff {m n : Node} : m.toValue.Holds n ↔ m = n := by
  constructor
  · generalize hv : m.toValue = v
    intro h
    cases h with
    | here =>
      cases m
      cases n
      cases hv
      rfl
    | item => cases hv
  · rintro rfl
    exact .here m

theorem holdsNames_list_iff {items : List Value} :
    HoldsNames (.list items) ↔ ∃ v ∈ items, v.HoldsNames := by
  constructor
  · generalize hv : Value.list items = v
    intro h
    cases h with
    | here => cases hv
    | item mem h =>
      cases hv
      exact ⟨_, mem, h⟩
  · rintro ⟨v, mem, h⟩
    exact .item mem h

variable {attr x : String}

/-- A value offers a set of names under an attribute. -/
inductive Offers (attr : String) : Value → NameSet → Prop
  | set (s : NameSet) : Offers attr (.names s) s
  | node {n : Node} {s : NameSet} (h : n.get? attr = some (.names s)) : Offers attr n.toValue s
  | item {items : List Value} {v : Value} {s : NameSet} (mem : v ∈ items) (h : Offers attr v s) :
      Offers attr (.list items) s

theorem offers_list_iff {items : List Value} {s : NameSet} :
    Offers attr (.list items) s ↔ ∃ v ∈ items, v.Offers attr s := by
  constructor
  · generalize hv : Value.list items = v
    intro h
    cases h with
    | set | node => cases hv
    | item mem h =>
      cases hv
      exact ⟨_, mem, h⟩
  · rintro ⟨v, mem, h⟩
    exact .item mem h

theorem offers_toValue_iff {n : Node} {s : NameSet} :
    n.toValue.Offers attr s ↔ n.get? attr = some (.names s) := by
  constructor
  · generalize hv : n.toValue = v
    intro h
    cases h with
    | node h =>
      cases n
      cases hv
      exact h
    | set | item => cases hv
  · exact .node

theorem mem_namesUnder_toValue {n : Node} :
    x ∈ n.toValue.namesUnder attr ↔ ∃ set, n.get? attr = some (.names set) ∧ x ∈ set := by
  rw [Node.toValue, namesUnder, Node.get?]
  split
  · next set h => simp [h]
  · next hnot =>
    constructor
    · intro h
      exact absurd h (NameSet.not_mem_empty x)
    · rintro ⟨set, h, -⟩
      exact absurd h (hnot set)

mutual

/-- The names under an attribute are those of the sets offered. -/
theorem mem_namesUnder_iff : ∀ {v : Value}, x ∈ v.namesUnder attr ↔ ∃ s, v.Offers attr s ∧ x ∈ s
  | .list items => by
    rw [namesUnder, mem_namesUnderItems_iff]
    constructor
    · rintro ⟨v, mem, s, hs, hx⟩
      exact ⟨s, .item mem hs, hx⟩
    · rintro ⟨s, hs, hx⟩
      obtain ⟨v, mem, hs⟩ := offers_list_iff.mp hs
      exact ⟨v, mem, s, hs, hx⟩
  | .node id typeName fields metadata => by
    let n : Node := ⟨id, typeName, fields, metadata⟩
    show x ∈ n.toValue.namesUnder attr ↔ ∃ s, n.toValue.Offers attr s ∧ x ∈ s
    rw [mem_namesUnder_toValue]
    simp only [offers_toValue_iff]
  | .names s => by
    rw [namesUnder]
    constructor
    · exact fun h => ⟨s, .set s, h⟩
    · rintro ⟨_, ⟨⟩, h⟩
      exact h
  | .null | .bool _ | .number _ | .string _ | .any _ => by
    simp only [namesUnder, NameSet.not_mem_empty, false_iff]
    rintro ⟨_, ⟨⟩, -⟩

theorem mem_namesUnderItems_iff : ∀ {items : List Value},
    x ∈ namesUnderItems attr items ↔ ∃ v ∈ items, ∃ s, v.Offers attr s ∧ x ∈ s
  | [] => by simp [namesUnderItems]
  | v :: items => by
    rw [namesUnderItems, NameSet.mem_union, mem_namesUnder_iff, mem_namesUnderItems_iff,
      List.exists_mem_cons_iff]

end

theorem Holds.offers {v : Value} {n : Node} {s : NameSet} (h : v.Holds n)
    (hs : n.get? attr = some (.names s)) : v.Offers attr s := by
  induction h with
  | here n => exact .node hs
  | item mem _ ih => exact .item mem (ih hs)

/-- Where no sets are held, the names under an attribute are those of the nodes held. -/
theorem mem_namesUnder {v : Value} (hv : ¬ v.HoldsNames) :
    x ∈ v.namesUnder attr ↔ ∃ n : Node, v.Holds n ∧ x ∈ n.toValue.namesUnder attr := by
  rw [mem_namesUnder_iff]
  constructor
  · rintro ⟨s, hs, hx⟩
    induction hs with
    | set s => exact absurd (.here s) hv
    | @node n s h => exact ⟨n, .here n, mem_namesUnder_toValue.mpr ⟨s, h, hx⟩⟩
    | item mem _ ih =>
      obtain ⟨n, hn, hx⟩ := ih (fun h => hv (.item mem h)) hx
      exact ⟨n, .item mem hn, hx⟩
  · rintro ⟨n, hn, hx⟩
    obtain ⟨s, hs, hx⟩ := mem_namesUnder_toValue.mp hx
    exact ⟨s, hn.offers hs, hx⟩

end Value

/-! ### Set expressions -/

namespace SetTerm

variable {ref ref' : Type}

theorem added_map (f : ref → ref') (values : ref' → Value) (term : SetTerm ref) :
    (term.map f).added values = term.added (values ∘ f) := by
  cases term <;> rfl

theorem removed_map (f : ref → ref') (values : ref' → Value) (term : SetTerm ref) :
    (term.map f).removed values = term.removed (values ∘ f) := by
  cases term <;> rfl

variable {term : SetTerm ref} {values values' : ref → Value}

/-- A term reads one field at most. -/
theorem added_congr (h : ∀ field ∈ term.field?, values field = values' field) :
    term.added values = term.added values' := by
  cases term with
  | take field attr => rw [added, added, h field rfl]
  | name field => rw [added, added, h field rfl]
  | subtract | exclude => rfl

theorem removed_congr (h : ∀ field ∈ term.field?, values field = values' field) :
    term.removed values = term.removed values' := by
  cases term with
  | subtract field attr => rw [removed, removed, h field rfl]
  | take | name | exclude => rfl

end SetTerm

namespace SetExpr

variable {expr : SetExpr} {x : String}

theorem mem_foldl_union {terms : List (SetTerm Nat)} {f : SetTerm Nat → NameSet} {set : NameSet} :
    x ∈ terms.foldl (fun acc term => acc.union (f term)) set ↔
      x ∈ set ∨ ∃ term ∈ terms, x ∈ f term := by
  induction terms generalizing set with
  | nil => simp
  | cons term terms ih =>
    rw [List.foldl_cons, ih, NameSet.mem_union, or_assoc]
    simp

theorem mem_foldl_diff {terms : List (SetTerm Nat)} {f : SetTerm Nat → NameSet} {set : NameSet} :
    x ∈ terms.foldl (fun acc term => acc.diff (f term)) set ↔
      x ∈ set ∧ ∀ term ∈ terms, x ∉ f term := by
  induction terms generalizing set with
  | nil => simp
  | cons term terms ih =>
    rw [List.foldl_cons, ih, NameSet.mem_diff, List.forall_mem_cons, and_assoc]

theorem mem_evaluate_iff {args : List Value} : x ∈ expr.evaluate args ↔
    (∃ term ∈ expr.terms, x ∈ term.added (valueAt args)) ∧
      ∀ term ∈ expr.terms, x ∉ term.removed (valueAt args) := by
  rw [evaluate, mem_foldl_diff, mem_foldl_union]
  simp

/-- The field of a slot. -/
def fieldAt (fields : List String) (slot : Nat) : String := fields[slot]?.getD ""

/-- The terms with the names of their fields. -/
def named (expr : SetExpr) : List (SetTerm String) := expr.terms.map (·.map (fieldAt expr.fields))

/-- With one more term, the terms before it mean what they meant. -/
theorem named_push (expr : SetExpr) (term : SetTerm String) :
    (expr.push term).named = expr.named ++ [term] := by
  have hold : ∀ t ∈ expr.terms,
      t.map (fieldAt (expr.fieldsWith term)) = t.map (fieldAt expr.fields) := by
    intro t ht
    have hslot : ∀ slot ∈ t.field?,
        fieldAt (expr.fieldsWith term) slot = fieldAt expr.fields slot := by
      intro slot hslot
      obtain ⟨more, hmore⟩ := expr.prefix_fieldsWith term
      rw [fieldAt, fieldAt, ← hmore, List.getElem?_append_left (expr.slotsIn t ht slot hslot)]
    cases t with
    | take slot attr | name slot | subtract slot attr => simp only [SetTerm.map, hslot slot rfl]
    | exclude => rfl
  have hnew : (term.map fun field => (slotOf expr.fields field).1).map
      (fieldAt (expr.fieldsWith term)) = term := by
    have hfield : ∀ field ∈ term.field?,
        fieldAt (expr.fieldsWith term) (slotOf expr.fields field).1 = field := by
      intro field hfield
      rw [fieldAt, expr.getElem?_fieldsWith hfield, Option.getD_some]
    cases term with
    | take field attr | name field | subtract field attr =>
      simp only [SetTerm.map, hfield field rfl]
    | exclude => rfl
  rw [named, push, List.map_append, List.map_singleton, hnew, List.map_congr_left hold]
  rfl

/-- A name is in the set for the values of the fields if a term adds it and no term takes it
away. -/
theorem mem_evaluate {values : String → Value} : x ∈ expr.evaluate (expr.fields.map values) ↔
    (∃ term ∈ expr.named, x ∈ term.added values) ∧
      ∀ term ∈ expr.named, x ∉ term.removed values := by
  -- The value in a slot is that of the field.
  have hvalue : ∀ term ∈ expr.terms, ∀ slot ∈ term.field?,
      (values ∘ fieldAt expr.fields) slot = valueAt (expr.fields.map values) slot := by
    intro term hterm slot hslot
    have hlt := expr.slotsIn term hterm slot hslot
    rw [Function.comp_apply, fieldAt, valueAt, List.getElem?_map, List.getElem?_eq_getElem hlt]
    rfl
  rw [mem_evaluate_iff, named, List.forall_mem_map]
  simp only [List.mem_map, exists_exists_and_eq_and]
  refine and_congr (exists_congr fun term => and_congr_right fun hterm => ?_)
    (forall₂_congr fun term hterm => ?_)
  · rw [SetTerm.added_map, SetTerm.added_congr (hvalue term hterm)]
  · rw [SetTerm.removed_map, SetTerm.removed_congr (hvalue term hterm)]

end SetExpr

/-! ### Computed fields -/

/-- The value of a field among entries. -/
def valueIn (entries : List (String × Value)) (field : String) : Value :=
  (entries.lookup field).getD .null

/-- A set expression over fields reads the values of the fields. -/
theorem Computed.evaluate_names {entries : List (String × Value)} {expr : SetExpr}
    {args : List Value} (h : List.Forall₂ (fun dep arg => entries.lookup dep = some arg)
      expr.fields args) :
    (Computed.names expr).evaluate args =
      .names (expr.evaluate (expr.fields.map (valueIn entries))) := by
  have hargs : expr.fields.map (valueIn entries) = args := by
    rw [← List.forall₂_eq_eq_eq, List.forall₂_map_left_iff]
    exact h.imp fun dep arg hdep => by rw [valueIn, hdep, Option.getD_some]
  rw [hargs, evaluate]

end TypedTree
