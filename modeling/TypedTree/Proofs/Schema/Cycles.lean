/-
The check that no type leads to itself at the same source value.

Main statements:

* `Builder.samePath` — the types that a type hands its source value to;
* `Builder.samePathOrder_eq_ok_iff` — the check passes if and only if no type leads to itself,
  and else its fault names one that does;
* `Builder.exists_prepares_iff` — the checks besides that of the inspect shapes, by the bodies of
  types;
* `Builder.freeze_iff_acyclic` — a schema in which every type has a sound body, and which has
  no inspect shapes, can be frozen if and only if no type leads to itself; there is no other
  fault.

Design notes: the check itself is treated for any list of types; here its steps are those between
the bodies of a builder. What the inspect shapes of a schema have to satisfy besides is stated with
their check.
-/
import TypedTree.Proofs.Schema.Acyclicity
import TypedTree.Proofs.Synthesis.Growth

namespace TypedTree

namespace Builder

variable {b : Builder} {types : List Defined}

/-- The types that a type hands its source value to. -/
def samePath (b : Builder) (id : TypeId) : List TypeId :=
  ((b.body? id).map (·.samePath)).getD []

theorem mem_samePath_iff {id next : TypeId} :
    next ∈ b.samePath id ↔ ∃ shape, b.body? id = some shape ∧ next ∈ shape.samePath := by
  rw [samePath]
  cases b.body? id <;> simp

section

variable (htypes : b.declarations.mapM Declaration.defined = .ok types)
include htypes

theorem samePathAt_of_defined : samePathAt (types.map (·.shape)) = b.samePath := by
  funext id
  rw [samePathAt, shapeAt, samePath, (body?_of_defined htypes id).1, List.getElem?_map]
  cases types[id.index]? <;> rfl

/-- The check passes if no type leads to itself. -/
theorem samePathOrder_eq_ok_iff :
    (∃ order, samePathOrder types = .ok order) ↔ ∀ id, ¬ Graph.OnCycle b.samePath id := by
  rw [← samePathAt_of_defined htypes]
  exact exists_samePathOrder_iff

/-- A fault names a type that leads to itself. -/
theorem exists_cycle_of_samePathOrder {e : SchemaError} (h : samePathOrder types = .error e) :
    ∃ id, e = .unionCycle (b.name id) ∧ Graph.OnCycle b.samePath id := by
  obtain ⟨id, -, rfl, hid⟩ := exists_onCycle_of_samePathOrder h
  rw [samePathAt_of_defined htypes] at hid
  exact ⟨id, by rw [(body?_of_defined htypes id).2], hid⟩

end

/-! ### Schemas by their bodies -/

/-- Every type has a body that the check of the type at hand does not refuse. -/
def Plans (b : Builder) : Prop :=
  ∀ id : TypeId, id.index < b.size → ∃ shape plan, b.body? id = some shape ∧
    Defined.plan { name := b.name id, shape, structural := false } = .ok plan

theorem exists_plans_iff :
    (∃ types plans, b.declarations.mapM Declaration.defined = .ok types ∧
      types.mapM Defined.plan = .ok plans) ↔ b.Plans := by
  constructor
  · rintro ⟨types, plans, htypes, hplans⟩ id hid
    have hlength : b.size = types.length := (mapM_eq_ok_iff.mp htypes).length_eq
    have hlt : id.index < types.length := by omega
    obtain ⟨hbody, hname⟩ := body?_of_defined htypes id
    have hplan := (mapM_eq_ok_iff.mp hplans).get hlt
      ((mapM_eq_ok_iff.mp hplans).length_eq ▸ hlt)
    rw [nameAt] at hname
    rw [List.getElem?_eq_getElem hlt] at hbody hname
    exact ⟨_, _, hbody, by rw [hname]; exact hplan⟩
  · intro hall
    obtain ⟨types, htypes⟩ : ∃ types, b.declarations.mapM Declaration.defined = .ok types := by
      refine exists_mapM_eq_ok_iff.mpr fun d hd => ?_
      obtain ⟨i, hi, rfl⟩ := List.getElem_of_mem hd
      obtain ⟨shape, -, hbody, -⟩ := hall ⟨i⟩ hi
      rw [body?, declaration?, List.getElem?_eq_getElem hi] at hbody
      have hbody : b.declarations[i].body = some shape := hbody
      exact ⟨_, by rw [Declaration.defined, hbody]⟩
    -- Each type taken over stands at the place of its declaration, which has a plan.
    have hplan : ∀ d ∈ types, ∃ plan, d.plan = .ok plan := by
      intro d hd
      obtain ⟨i, hi⟩ := List.getElem?_of_mem hd
      obtain ⟨hbody, hname⟩ := body?_of_defined htypes ⟨i⟩
      have hlength : b.size = types.length := (mapM_eq_ok_iff.mp htypes).length_eq
      obtain ⟨shape, plan, hshape, hplan⟩ :=
        hall ⟨i⟩ (hlength ▸ (List.getElem?_eq_some_iff.mp hi).1)
      rw [hbody, hi] at hshape
      cases hshape
      rw [hname, nameAt, hi] at hplan
      exact ⟨plan, hplan⟩
    obtain ⟨plans, hplans⟩ := exists_mapM_eq_ok_iff.mpr hplan
    exact ⟨types, plans, htypes, hplans⟩

/-- A schema passes the checks besides that of the inspect shapes if every body passes that of the
type at hand and no type leads to itself. -/
theorem exists_prepares_iff :
    (∃ types, b.Prepares types) ↔ b.Plans ∧ ∀ id, ¬ Graph.OnCycle b.samePath id := by
  rw [← exists_plans_iff]
  constructor
  · rintro ⟨types, htypes, ⟨plans, hplans⟩, horder⟩
    exact ⟨⟨types, plans, htypes, hplans⟩, (samePathOrder_eq_ok_iff htypes).mp horder⟩
  · rintro ⟨⟨types, plans, htypes, hplans⟩, hacyclic⟩
    exact ⟨types, htypes, ⟨plans, hplans⟩, (samePathOrder_eq_ok_iff htypes).mpr hacyclic⟩

theorem plans_of_freeze {reg : Registry} (h : b.freeze = .ok reg) : b.Plans := by
  obtain ⟨types, hprepares, -⟩ := prepares_of_freeze_eq_ok h
  exact (exists_prepares_iff.mp ⟨types, hprepares⟩).1

/-- No union is without alternatives. -/
theorem Plans.ne_nil_of_union (h : b.Plans) {id : TypeId} {alternatives : List TypeId}
    (hbody : b.body? id = some (.union alternatives)) : alternatives ≠ [] := by
  rintro rfl
  obtain ⟨shape, plan, hshape, hplan⟩ := h id (lt_size_of_body? hbody)
  rw [hbody] at hshape
  cases hshape
  cases hplan

/-! ### Schemas without inspect shapes -/

/-- A body that the check of the type at hand does not refuse, and no inspect shape. -/
def Settled (name : String) (shape : Shape) : Prop :=
  (∃ plan, Defined.plan { name, shape, structural := false } = .ok plan) ∧
    ∀ i, shape ≠ .inspect i

/-- Where every type has a settled body, a schema can be frozen if and only if no type leads
to itself at the same source value. Else the fault names such a type. -/
theorem freeze_iff_acyclic
    (h : ∀ id : TypeId, id.index < b.size → ∃ shape, b.body? id = some shape ∧
      Settled (b.name id) shape) :
    ((∃ reg, b.freeze = .ok reg) ↔ ∀ id, ¬ Graph.OnCycle b.samePath id) ∧
      ∀ e, b.freeze = .error e →
        ∃ id, e = .unionCycle (b.name id) ∧ Graph.OnCycle b.samePath id := by
  obtain ⟨types, plans, htypes, hplans⟩ := exists_plans_iff.mpr fun id hid => by
    obtain ⟨shape, hbody, ⟨plan, hplan⟩, -⟩ := h id hid
    exact ⟨shape, plan, hbody, hplan⟩
  have hplain : ∀ d ∈ types, ∀ i, d.shape ≠ .inspect i := by
    intro d hd
    obtain ⟨i, hi⟩ := List.getElem?_of_mem hd
    have hlength : b.size = types.length := (mapM_eq_ok_iff.mp htypes).length_eq
    obtain ⟨shape, hshape, -, hplain⟩ :=
      h ⟨i⟩ (hlength ▸ (List.getElem?_eq_some_iff.mp hi).1)
    rw [(body?_of_defined htypes ⟨i⟩).1, hi] at hshape
    cases hshape
    exact hplain
  -- Without inspect shapes nothing is left to check but the bodies and the order.
  have hcheck : checkInspects types = .ok () :=
    checkInspects_eq_ok_iff.mpr fun d hd i hi => absurd hi (hplain d hd i)
  constructor
  · rw [← samePathOrder_eq_ok_iff htypes]
    constructor
    · rintro ⟨reg, hreg⟩
      obtain ⟨types', hprep, -⟩ := prepares_of_freeze_eq_ok hreg
      obtain rfl := Except.ok.inj (htypes.symm.trans hprep.1)
      exact hprep.2.2
    · rintro horder
      exact exists_freeze_of_prepares ⟨htypes, ⟨plans, hplans⟩, horder⟩ hcheck
  · intro e he
    refine exists_cycle_of_samePathOrder htypes ?_
    unfold freeze at he
    simp only [htypes, hplans, bind, Except.bind] at he
    split at he
    · next hfail =>
      cases he
      exact hfail
    · rw [hcheck] at he
      cases he

end Builder

end TypedTree
