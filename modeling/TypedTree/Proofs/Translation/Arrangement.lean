/-
Alternatives in another order.

Two registries may differ in the order of the alternatives of their unions only. Main statements:

* `Registry.Rearranges` — one registry is another with its alternatives in another order;
* `Arrangement`, `Registry.rearrange` — a registry with its alternatives in a given order;
* `firstAccepted_perm` — the order does not matter to a choice in which the alternatives that are
  not rejected agree;
* `Registry.Decisive` — a union in which they do, for every request;
* `Registry.Rearranges.answer_eq` — where all unions that a type uses are decisive, translation
  does not depend on the order;
* `Registry.Rearranges.regroups` — membership and the search for a tag never do.

Design notes: a rearranged registry may have other decisive unions. Only those of the first one
are spoken of: the answers to alternatives are the same in both before their orders are compared.
-/
import TypedTree.Proofs.Graph.Reach
import TypedTree.Proofs.Translation.Regrouping

namespace TypedTree

/-! ### Ordered choice -/

/-- The order of alternatives does not matter if those that are not rejected at the path itself
agree. -/
theorem firstAccepted_perm {α : Type} {path : Path} {exhausted : TranslationError}
    {f : α → Except TranslationError Value} {l l' : List α} (hperm : l.Perm l')
    (h : ∀ a ∈ l, ∀ b ∈ l, (∀ e, f a = .error e → e.rejectedAt path = false) →
      (∀ e, f b = .error e → e.rejectedAt path = false) → f a = f b) :
    firstAccepted path exhausted f l = firstAccepted path exhausted f l' := by
  have hnot : ∀ {a}, (∀ e, f a = .error e → e.rejectedAt path = false) →
      ¬ ∃ e, f a = .error e ∧ e.rejectedAt path = true := by
    rintro a hfinal ⟨e, he, hrej⟩
    rw [hfinal e he] at hrej
    cases hrej
  rcases firstAccepted_cases path exhausted f l with
    ⟨before, a, after, hl, -, ha, heq⟩ | ⟨hall, heq⟩
  · have hmem : a ∈ l := by simp [hl]
    rcases firstAccepted_cases path exhausted f l' with
      ⟨before', b, after', hl', -, hb, heq'⟩ | ⟨hall', heq'⟩
    · have hmem' : b ∈ l := hperm.mem_iff.mpr (by simp [hl'])
      rw [heq, heq']
      exact h a hmem b hmem' ha hb
    · exact absurd (hall' a (hperm.mem_iff.mp hmem)) (hnot ha)
  · rcases firstAccepted_cases path exhausted f l' with
      ⟨before', b, after', hl', -, hb, heq'⟩ | ⟨-, heq'⟩
    · exact absurd (hall b (hperm.mem_iff.mpr (by simp [hl']))) (hnot hb)
    · rw [heq, heq']

/-! ### Rearranged registries -/

/-- A body with its alternatives in another order. -/
inductive Shape.Reorders : Shape → Shape → Prop
  | same (shape : Shape) : Reorders shape shape
  | union {l l' : List TypeId} (perm : l.Perm l') : Reorders (.union l) (.union l')

theorem Shape.Reorders.mem_samePath_iff {shape shape' : Shape} {id : TypeId}
    (h : shape.Reorders shape') : id ∈ shape'.samePath ↔ id ∈ shape.samePath := by
  cases h with
  | same => exact Iff.rfl
  | union perm => exact perm.mem_iff.symm

namespace Registry

/-- One registry is another with its alternatives in another order. -/
structure Rearranges (reg reg' : Registry) : Prop where
  size : reg'.size = reg.size
  name : ∀ id, reg'.name id = reg.name id
  plan : ∀ id, reg'.plan id = reg.plan id
  shape : ∀ id, (reg.shape id).Reorders (reg'.shape id)

/-- The alternatives of a union that are not rejected agree, whatever is asked. -/
def Decisive (reg : Registry) (limit : Nat) (alternatives : List TypeId) : Prop :=
  ∀ r : Request, ∀ a ∈ alternatives, ∀ b ∈ alternatives,
    (∀ e, reg.answer limit (r.as a) = .error e → e.rejectedAt r.path = false) →
    (∀ e, reg.answer limit (r.as b) = .error e → e.rejectedAt r.path = false) →
    reg.answer limit (r.as a) = reg.answer limit (r.as b)

/-- A type uses another one, directly or through others. -/
def Uses (reg : Registry) : TypeId → TypeId → Prop := Graph.Leads fun id => (reg.shape id).parts

namespace Rearranges

variable {reg reg' : Registry} {limit : Nat} (h : reg.Rearranges reg')
include h

/-- Membership and the search for a tag do not depend on the order of alternatives. -/
theorem regroups : reg.Regroups reg' := by
  refine ⟨h.size, h.name, fun id _ _ => h.plan id, fun id => ?_⟩
  generalize reg.shape id = shape, reg'.shape id = shape', h.shape id = hreorders
  cases hreorders with
  | same => exact .same _
  | union perm => exact .union fun _ _ => perm.symm.any_eq

/-- Where all unions that a type uses are decisive, an answer does not depend on the order of
alternatives. -/
theorem answer_eq {root : TypeId} (hroot : ∀ id alternatives, reg.Uses root id →
      reg.shape id = .union alternatives → reg.Decisive limit alternatives) :
    ∀ r : Request, reg.Uses root r.id → reg'.answer limit r = reg.answer limit r := by
  refine request_induction reg limit ?_
  intro r ih huses
  have hpart : ∀ {r'}, Calls reg limit r r' → r'.id ∈ (reg.shape r.id).parts →
      reg'.answer limit r' = reg.answer limit r' :=
    fun hcall hmem => ih _ hcall (huses.tail hmem)
  have hshape := h.shape r.id
  generalize hold : reg.shape r.id = shape, hnew : reg'.shape r.id = shape' at hshape
  -- Only a union may differ from its counterpart; of any other shape both registries ask the same.
  cases hshape with
  | @union l l' perm =>
    have hsame : ∀ a ∈ l', reg'.answer limit (r.as a) = reg.answer limit (r.as a) := by
      intro a ha
      have hmem : a ∈ l := perm.mem_iff.mpr ha
      refine hpart (.samePath ?_) ?_
      · rw [hold]
        exact hmem
      · rw [hold]
        exact hmem
    calc reg'.answer limit r
        = firstAccepted r.path (reg.exhausted r.id r.path r.source)
            (fun a => reg'.answer limit (r.as a)) l' := by
          rw [answer_union hnew, h.regroups.exhausted_eq]
      _ = firstAccepted r.path (reg.exhausted r.id r.path r.source)
            (fun a => reg.answer limit (r.as a)) l' := firstAccepted_congr_of_mem hsame
      _ = firstAccepted r.path (reg.exhausted r.id r.path r.source)
            (fun a => reg.answer limit (r.as a)) l :=
          (firstAccepted_perm perm (hroot r.id l huses hold r)).symm
      _ = reg.answer limit r := (answer_union hold).symm
  | same =>
    calc reg'.answer limit r
        = reg'.translateRound limit (reg'.answer limit) r :=
          (translateRound_eq_answer fun _ _ => rfl).symm
      _ = reg.translateRound limit (reg'.answer limit) r :=
          h.regroups.translateRound_eq (hnew.trans hold.symm)
      _ = reg.answer limit r := translateRound_eq_answer fun r' hr' => by
          obtain ⟨hcall, hmem⟩ := of_mem_leadsTo hr'
          exact hpart hcall hmem

/-- The same for whole sources. -/
theorem translate_eq {root : TypeId} (hroot : ∀ id alternatives, reg.Uses root id →
      reg.shape id = .union alternatives → reg.Decisive limit alternatives) (source : Json) :
    reg'.translate limit root source = reg.translate limit root source := by
  have hcontains : reg'.contains root = reg.contains root := by rw [contains, contains, h.size]
  rw [Registry.translate_eq, Registry.translate_eq, hcontains,
    h.answer_eq hroot (.whole root source) .refl]

end Rearranges

end Registry

/-! ### Arrangements -/

/-- An order for the alternatives of every union. -/
structure Arrangement where
  order : TypeId → List TypeId → List TypeId
  perm : ∀ id alternatives, (order id alternatives).Perm alternatives

/-- A body with its alternatives in a given order. -/
def Shape.rearrange (order : List TypeId → List TypeId) : Shape → Shape
  | union alternatives => .union (order alternatives)
  | shape => shape

theorem Shape.reorders_rearrange {order : List TypeId → List TypeId}
    (horder : ∀ l, (order l).Perm l) (shape : Shape) : shape.Reorders (shape.rearrange order) := by
  cases shape with
  | union alternatives => exact .union (horder alternatives).symm
  | primitive | array | nullable | nameSet | product | inspect => exact .same _

namespace Registry

/-- A definition with its alternatives in a given order. -/
def rearrangeDef (a : Arrangement) (i : Nat) (d : TypeDef) : TypeDef :=
  { d with shape := d.shape.rearrange (a.order ⟨i⟩) }

theorem reorders_rearrangeDefs (reg : Registry) (a : Arrangement) (id : TypeId) :
    (reg.shape id).Reorders
      (shapeAt (((reg.defs.mapIdx (rearrangeDef a)).toList.map (·.shape))) id) := by
  rw [shape, def?, shapeAt, List.getElem?_map, Array.toList_mapIdx, List.getElem?_mapIdx,
    Array.getElem?_toList]
  cases reg.defs[id.index]? with
  | none => exact .same _
  | some d => exact d.shape.reorders_rearrange (a.perm id)

/-- A registry with its alternatives in a given order. -/
def rearrange (reg : Registry) (a : Arrangement) : Registry where
  defs := reg.defs.mapIdx (rearrangeDef a)
  table := reg.table
  acyclic := by
    obtain ⟨rank, hrank⟩ := reg.acyclic
    refine ⟨rank, fun id next hnext => hrank id next ?_⟩
    rw [samePathAt] at hnext ⊢
    rw [shapeAt_defs]
    exact (reg.reorders_rearrangeDefs a id).mem_samePath_iff.mp hnext

theorem rearranges_rearrange (reg : Registry) (a : Arrangement) :
    reg.Rearranges (reg.rearrange a) := by
  have hdef : ∀ id, (reg.rearrange a).def? id =
      (reg.def? id).map (rearrangeDef a id.index) := fun id => Array.getElem?_mapIdx
  constructor
  · exact Array.size_mapIdx
  · intro id
    rw [name, name, hdef, Option.map_map]
    rfl
  · intro id
    rw [plan, plan, hdef, Option.map_map]
    rfl
  · intro id
    rw [← shapeAt_defs (reg.rearrange a)]
    exact reg.reorders_rearrangeDefs a id

end Registry

end TypedTree
