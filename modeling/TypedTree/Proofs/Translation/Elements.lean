/-
The elements of translated lists.

Main statements:

* `stripRest_cases` — a list is taken whole, or without a rest element at its end;
* `Registry.KeepsItems` — the lists of a node hold the translations of the elements of their
  source arrays, in order and without a gap; only a rest element at the end may be missing;
* `Registry.Builds.keepsItems` — a node that is built from a record keeps its items, if no
  inspect shape handed a list over;
* `Registry.keepsAllItems_of_checks` — so does every node of a translated source, for a registry
  that passes two checks that can be run.

Design notes: a rest element is taken off every list, whether its owner has a field for it or
not.
-/
import TypedTree.Proofs.Translation.Population
import TypedTree.Proofs.Translation.Run

namespace TypedTree

/-! ### Rest elements -/

/-- A list is taken whole, or without a rest element at its end. -/
theorem stripRest_cases (items : List Json) :
    (∀ last, items.getLast? = some last → last.isRest = false) ∧ stripRest items = items ∨
      ∃ last, items.getLast? = some last ∧ last.isRest = true ∧
        items = stripRest items ++ [last] := by
  unfold stripRest
  cases hlast : items.getLast? with
  | none => exact .inl ⟨nofun, rfl⟩
  | some last =>
    dsimp only
    by_cases hrest : last.isRest = true
    · rw [if_pos hrest]
      exact .inr ⟨last, rfl, hrest, (List.dropLast_append_getLast? last hlast).symm⟩
    · rw [if_neg hrest]
      refine .inl ⟨fun last' hlast' => ?_, rfl⟩
      cases hlast'
      simpa using hrest

/-- What is taken of a list stands where it stood. -/
theorem getElem?_of_stripRest {items : List Json} {i : Nat} {x : Json}
    (h : (stripRest items)[i]? = some x) : items[i]? = some x := by
  rcases stripRest_cases items with ⟨-, heq⟩ | ⟨last, -, -, heq⟩
  · rwa [heq] at h
  · obtain ⟨hlt, -⟩ := List.getElem?_eq_some_iff.mp h
    rw [heq, List.getElem?_append_left hlt]
    exact h

theorem length_stripRest_of_isRest {items : List Json} {last : Json}
    (hlast : items.getLast? = some last) (hrest : last.isRest = true) :
    (stripRest items).length + 1 = items.length := by
  rcases stripRest_cases items with ⟨hnot, -⟩ | ⟨last', -, -, heq⟩
  · rw [hnot last hlast] at hrest
    cases hrest
  · calc (stripRest items).length + 1 = (stripRest items ++ [last']).length := by simp
      _ = items.length := by rw [← heq]

/-- Nothing is taken off a list if and only if it does not end in a rest element. -/
theorem length_stripRest_iff {items : List Json} :
    (stripRest items).length = items.length ↔
      ∀ last, items.getLast? = some last → last.isRest = false := by
  constructor
  · intro hlength last hlast
    by_contra hrest
    have hless := length_stripRest_of_isRest hlast (by simpa using hrest)
    omega
  · intro hnot
    rcases stripRest_cases items with ⟨-, heq⟩ | ⟨last, hlast, hrest, -⟩
    · rw [heq]
    · rw [hnot last hlast] at hrest
      cases hrest

theorem restUnder_eq {key : String} {record : Json.Record} {items : List Json} {last : Json}
    (hget : record.get? key = some (.arr items)) (hlast : items.getLast? = some last)
    (hrest : last.isRest = true) : restUnder key record = last := by
  unfold restUnder
  rw [hget]
  dsimp only
  rw [hlast]
  exact if_pos hrest

theorem Json.isNull_eq_false_of_isRest {value : Json} (h : value.isRest = true) :
    value.isNull = false := by
  cases value <;> first | rfl | cases h

namespace Registry

variable {reg : Registry} {limit : Nat} {r s : Request} {item : TypeId} {items : List Json}

/-! ### Types of lists -/

/-- The type of the lists of another one, to which `null` may have been added. -/
inductive ListOf (reg : Registry) : TypeId → TypeId → Prop
  | array {id item : TypeId} (shape : reg.shape id = .array item) : ListOf reg id item
  | nullable {id inner item : TypeId} (shape : reg.shape id = .nullable inner)
      (h : ListOf reg inner item) : ListOf reg id item

theorem ListOf.exists_samePath {id : TypeId} (h : reg.ListOf id item) :
    ∃ last, reg.SamePath id last ∧ reg.shape last = .array item := by
  induction h with
  | @array id _ shape => exact ⟨id, .refl id, shape⟩
  | nullable shape _ ih =>
    obtain ⟨last, hpath, hlast⟩ := ih
    exact ⟨last, .step (by simp [shape, Shape.samePath]) hpath, hlast⟩

/-- An array becomes the list of the translations of its elements. -/
theorem exists_values_of_listOf {v : Value} (h : reg.ListOf r.id item)
    (hsource : r.source = some (.arr items)) (hv : reg.answer limit r = .ok v) :
    ∃ values, v = .list values ∧
      List.Forall₂ (fun x value => reg.answer limit (r.item item x.1 x.2) = .ok value)
        (stripRest items).zipIdx values := by
  generalize hid : r.id = id at h
  induction h generalizing r with
  | array shape =>
    obtain ⟨items', values, hitems, rfl, hvalues⟩ := of_answer_array_eq_ok (hid ▸ shape) hv
    rw [hsource] at hitems
    cases hitems
    exact ⟨values, rfl, hvalues⟩
  | @nullable id inner item shape _ ih =>
    rcases of_answer_nullable_eq_ok (hid ▸ shape) hv with ⟨hnull, -⟩ | ⟨-, hanswer⟩
    · rw [hsource] at hnull
      cases hnull
    · exact @ih (r.as inner) hsource hanswer rfl

/-! ### Lists of a node -/

/-- The list of every field that reads an array from a key holds the translations of the
elements, in their order. All of them are there if and only if there is no rest element at the
end; that one is translated in the fields for the rest element of the key. -/
def KeepsItems (reg : Registry) (limit : Nat) (s : Request) (record : Json.Record) (p : Product)
    (n : Node) : Prop :=
  ∀ field ∈ p.fields, field.isComputed = false → ∀ key item items, field.source = .key key →
    reg.ListOf field.type item → record.get? key = some (.arr items) →
    ∃ values, n.get? field.name = some (.list values) ∧
      (∀ i value, values[i]? = some value → ∃ x, items[i]? = some x ∧
        reg.answer limit ((s.part field.type (some (.arr items)) (s.path.field key)).item
          item x i) = .ok value) ∧
      (values.length = items.length ↔ ∀ last, items.getLast? = some last → last.isRest = false) ∧
      ∀ last, items.getLast? = some last → last.isRest = true →
        values.length + 1 = items.length ∧
        ∀ lifted ∈ p.fields, lifted.isComputed = false → lifted.source = .extract (.rest key) →
          ∃ v, n.get? lifted.name = some v ∧
            reg.answer limit (s.part lifted.type (some last) (s.path.field key)) = .ok v

/-- What stands ready is not for a list. -/
def SparesLists (reg : Registry) (s : Request) (p : Product) : Prop :=
  ∀ preset, s.preset = some preset → ∀ field ∈ p.fields, field.isComputed = false →
    field.source = .key preset.key → ∀ item, ¬ reg.ListOf field.type item

/-- A node that is built from a record keeps its items. -/
theorem Builds.keepsItems {record : Json.Record} {p : Product} {n : Node}
    (h : reg.Builds limit s record p n) (hspare : reg.SparesLists s p) :
    reg.KeepsItems limit s record p n := by
  intro field hmem hcomp key item items hkey hlist hget
  obtain ⟨v, hv, hanswer⟩ := h.field hmem hcomp
  rw [answerField_without_preset fun preset hpreset hready =>
      hspare preset hpreset field hmem hcomp hready item hlist,
    answerField_of_present rfl hkey (by rw [hget]; rfl), hget] at hanswer
  obtain ⟨values, rfl, hvalues⟩ := exists_values_of_listOf hlist rfl hanswer
  have hlength : values.length = (stripRest items).length := by
    rw [← hvalues.length_eq, List.length_zipIdx]
  refine ⟨values, hv, ?_, ?_, ?_⟩
  · intro i value hi
    obtain ⟨x, hx, hanswer⟩ := exists_of_forall₂_zipIdx hvalues hi
    exact ⟨x, getElem?_of_stripRest hx, hanswer⟩
  · rw [hlength, length_stripRest_iff]
  · intro last hlast hrest
    refine ⟨by rw [hlength, length_stripRest_of_isRest hlast hrest], ?_⟩
    intro lifted hlifted hcomp' hsource
    obtain ⟨w, hw, hanswer'⟩ := h.field hlifted hcomp'
    have happly : Extraction.apply (.rest key) record = last := restUnder_eq hget hlast hrest
    have hpresent : last.isNull = false := Json.isNull_eq_false_of_isRest hrest
    rw [answerField_without_preset (fun _ _ hready => by rw [hsource] at hready; cases hready),
      answerField_of_extract hsource (by rwa [happly]), happly] at hanswer'
    exact ⟨w, hw, hanswer'⟩

/-! ### Lists that are not handed over -/

/-- Whether no list is among the fields that an inspect shape hands its value to, as far as so
many steps tell. -/
def sparesListsWithin (reg : Registry) (steps : Nat) : Bool :=
  reg.ids.all fun id =>
    match reg.shape id with
    | .inspect i => reg.samePathSatisfy (fun last =>
        match (reg.shape last).asProduct? with
        | some p => p.fields.all fun field =>
            !field.readsKey i.field || reg.samePathSatisfy (fun type =>
              match reg.shape type with
              | .array _ => false
              | _ => true) steps field.type
        | none => true) steps id
    | _ => true

theorem not_listOf_of_sparesListsWithin {steps : Nat} (h : reg.sparesListsWithin steps = true)
    {id last : TypeId} {i : Inspect} {p : Product} {field : Field}
    (hinspect : reg.shape id = .inspect i) (hlast : reg.SamePath id last)
    (hshape : reg.shape last = .product p) (hmem : field ∈ p.fields)
    (hcomp : field.isComputed = false) (hkey : field.source = .key i.field) :
    ¬ reg.ListOf field.type item := by
  intro hlist
  obtain ⟨array, hpath, harray⟩ := hlist.exists_samePath
  have hid := List.all_eq_true.mp h id (mem_ids_of_shape_ne (by simp [hinspect]))
  rw [hinspect] at hid
  have hproduct := of_samePathSatisfy hid hlast
  rw [hshape] at hproduct
  have hfield := List.all_eq_true.mp hproduct field hmem
  rw [Field.readsKey_iff.mpr ⟨hcomp, hkey⟩, Bool.not_true, Bool.false_or] at hfield
  have hnone := of_samePathSatisfy hfield hpath
  rw [harray] at hnone
  cases hnone

/-- In a run that began with nothing, what stands ready is not for a list. -/
theorem sparesLists_of_reaches {steps : Nat} (h : reg.sparesListsWithin steps = true)
    {root : Request} (hroot : root.preset = none) (hrun : reg.Reaches limit root s) {p : Product}
    (hshape : reg.shape s.id = .product p) : reg.SparesLists s p := by
  intro preset hpreset field hmem hcomp hkey item
  obtain ⟨i, mid, -, hhand, hfield⟩ := exists_handsDown_of_preset hroot hrun hpreset
  rw [hfield] at hkey
  exact not_listOf_of_sparesListsWithin h hhand.shape hhand.samePath hshape hmem hcomp hkey

/-- Every node of a translated source is built in the run, and keeps its items. -/
def KeepsAllItems (reg : Registry) : Prop :=
  ∀ (limit : Nat) (id : TypeId) (source : Json) (v : Value),
    reg.translate limit id source = .ok v → ∀ n : Node, n.OccursIn v →
      ∃ s record p, reg.Reaches limit ⟨id, some source, .root, none, 0⟩ s ∧
        reg.Builds limit s record p n ∧ reg.KeepsItems limit s record p n

theorem keepsAllItems_of_checks {b : Builder} (hb : b.freeze = .ok reg) {rounds steps : Nat}
    (hpop : reg.populatesWithin rounds = true) (hspare : reg.sparesListsWithin steps = true) :
    reg.KeepsAllItems := by
  intro limit id source v hv n hn
  unfold translate at hv
  split at hv
  · let root : Request := ⟨id, some source, .root, none, 0⟩
    have hall : reg.AllBuiltFrom limit root v :=
      exists_builds_of_occursIn (Builder.planned_of_freeze hb)
        (structural_allBuiltFrom.populated hpop) root v .refl (fun _ hpreset => nomatch hpreset) hv
    obtain ⟨s, record, p, hrun, hbuilds⟩ := hall n hn
    exact ⟨s, record, p, hrun, hbuilds,
      hbuilds.keepsItems (sparesLists_of_reaches hspare rfl hrun hbuilds.shape)⟩
  · cases hv

end Registry

end TypedTree
