/-
Unions without unions in them.

A union in a union can be replaced by its alternatives, and an alternative that was listed before
can be left out. Main statements:

* `Builder.Flattens` — one such step on a list of alternatives, `Builder.flattens_distinct` — a
  list without its repetitions is reached by such steps;
* `Builder.exists_freeze_of_flattens` — a schema that can be frozen can be frozen with the
  flattened union.

Design notes: a step may bring in types that stand below an alternative, so whatever is reached
through the new list was reached through the old one, but in more steps. The checks of a schema
speak of what is reached.
-/
import TypedTree.Proofs.Schema.Cycles

namespace TypedTree

namespace Builder

open Relation (ReflTransGen TransGen)

variable {b : Builder} {u : TypeId} {l l' : List TypeId}

/-- A list of alternatives with the alternatives of one of them in its place, or without one that
was listed before. -/
inductive Flattens (b : Builder) : List TypeId → List TypeId → Prop
  | splice {before after inner : List TypeId} {id : TypeId}
      (body : b.body? id = some (.union inner)) :
      Flattens b (before ++ id :: after) (before ++ inner ++ after)
  | drop {before after : List TypeId} {id : TypeId} (mem : id ∈ before) :
      Flattens b (before ++ id :: after) (before ++ after)

/-- The members without repetitions are reached by leaving out what was listed before. -/
theorem flattens_distinct (b : Builder) (members : List TypeId) :
    ReflTransGen b.Flattens members (distinct members) := by
  suffices hall : ∀ rest seen : List TypeId, ReflTransGen b.Flattens (seen ++ rest)
      (rest.foldl (fun seen id => if id ∈ seen then seen else seen ++ [id]) seen) from
    hall members []
  intro rest
  induction rest with
  | nil => exact fun seen => by rw [List.append_nil]; exact .refl
  | cons id rest ih =>
    intro seen
    rw [List.foldl_cons]
    by_cases hseen : id ∈ seen
    · rw [if_pos hseen]
      exact .head (.drop hseen) (ih seen)
    · rw [if_neg hseen, show seen ++ id :: rest = seen ++ [id] ++ rest by simp]
      exact ih (seen ++ [id])

theorem mem_alternatives_iff {id next : TypeId} :
    next ∈ b.alternatives id ↔ ∃ inner, b.body? id = some (.union inner) ∧ next ∈ inner := by
  rw [alternatives]
  cases b.body? id with
  | none => simp
  | some shape => cases shape <;> simp [Shape.alternatives]

theorem alternatives_subset_samePath {id next : TypeId} (h : next ∈ b.alternatives id) :
    next ∈ b.samePath id := by
  obtain ⟨inner, hbody, hnext⟩ := mem_alternatives_iff.mp h
  exact mem_samePath_iff.mpr ⟨_, hbody, hnext⟩

/-- Whatever is listed was listed before, or is reached from there through unions. -/
theorem leadsByUnions_of_flattens (h : ReflTransGen b.Flattens l l') :
    ∀ a ∈ l', ∃ start ∈ l, b.LeadsByUnions start a := by
  induction h with
  | refl => exact fun a ha => ⟨a, ha, .refl⟩
  | tail _ hstep ih =>
    intro a ha
    cases hstep with
    | drop _ => exact ih a (by simp at ha ⊢; tauto)
    | @splice before after inner id body =>
      by_cases hinner : a ∈ inner
      · obtain ⟨start, hstart, hleads⟩ := ih id (by simp)
        exact ⟨start, hstart, hleads.tail (mem_alternatives_iff.mpr ⟨inner, body, hinner⟩)⟩
      · exact ih a (by simp at ha ⊢; tauto)

theorem ne_nil_of_flattens (hall : ∀ id inner, b.body? id = some (.union inner) → inner ≠ [])
    (h : ReflTransGen b.Flattens l l') (hl : l ≠ []) : l' ≠ [] := by
  induction h with
  | refl => exact hl
  | tail _ hstep _ =>
    cases hstep with
    | splice body => simp [hall _ _ body]
    | drop mem => exact List.append_ne_nil_of_left_ne_nil (List.ne_nil_of_mem mem) _

/-! ### The flattened schema -/

theorem body?_define_union (hu : b.body? u = some (.union l)) (id : TypeId) :
    (define u (.union l') b).2.body? id = if id = u then some (.union l') else b.body? id := by
  by_cases h : id = u
  · rw [h, if_pos rfl, body?_define_self (lt_size_of_body? hu)]
  · rw [if_neg h, body?_define_of_ne (Ne.symm h)]

section

variable (hu : b.body? u = some (.union l)) (hl : ReflTransGen b.Flattens l l')
include hu hl

theorem leadsByUnions_of_mem_alternatives {id next : TypeId}
    (h : next ∈ (define u (.union l') b).2.alternatives id) :
    TransGen (fun v w => w ∈ b.alternatives v) id next := by
  obtain ⟨inner, hbody, hnext⟩ := mem_alternatives_iff.mp h
  rw [body?_define_union hu] at hbody
  by_cases hid : id = u
  · rw [if_pos hid] at hbody
    cases hbody
    obtain ⟨start, hstart, hleads⟩ := leadsByUnions_of_flattens hl next hnext
    rw [hid]
    exact .head' (mem_alternatives_iff.mpr ⟨l, hu, hstart⟩) hleads
  · rw [if_neg hid] at hbody
    exact .single (mem_alternatives_iff.mpr ⟨inner, hbody, hnext⟩)

theorem leads_of_mem_samePath {id next : TypeId}
    (h : next ∈ (define u (.union l') b).2.samePath id) :
    TransGen (fun v w => w ∈ b.samePath v) id next := by
  by_cases hid : id = u
  · have hmem : next ∈ (define u (.union l') b).2.alternatives id := by
      rw [mem_samePath_iff, body?_define_union hu, if_pos hid] at h
      obtain ⟨_, hbody, hnext⟩ := h
      cases hbody
      rw [mem_alternatives_iff, body?_define_union hu, if_pos hid]
      exact ⟨l', rfl, hnext⟩
    exact TransGen.mono (fun _ _ => alternatives_subset_samePath) _ _
      (leadsByUnions_of_mem_alternatives hu hl hmem)
  · refine .single ?_
    rwa [mem_samePath_iff, body?_define_union hu, if_neg hid, ← mem_samePath_iff] at h

/-- A schema that can be frozen can be frozen with the flattened union. -/
theorem exists_freeze_of_flattens {reg : Registry} (h : b.freeze = .ok reg) :
    ∃ reg', (define u (.union l') b).2.freeze = .ok reg' := by
  obtain ⟨hprepares, hreads⟩ := (exists_freeze_iff b).mp ⟨reg, h⟩
  obtain ⟨hplans, hacyclic⟩ := exists_prepares_iff.mp hprepares
  have hnonempty : ∀ id inner, b.body? id = some (.union inner) → inner ≠ [] :=
    fun _ _ => hplans.ne_nil_of_union
  refine (exists_freeze_iff _).mpr ⟨exists_prepares_iff.mpr ⟨?_, ?_⟩, ?_⟩
  · intro id hid
    rw [body?_define_union hu, name_define]
    by_cases heq : id = u
    · obtain ⟨a, rest, rfl⟩ := List.exists_cons_of_ne_nil
        (ne_nil_of_flattens hnonempty hl (hnonempty u l hu))
      exact ⟨.union (a :: rest), [], if_pos heq, rfl⟩
    · rw [if_neg heq]
      exact hplans id (size_define ▸ hid)
  · intro id hcycle
    exact hacyclic id (TransGen.closed (fun _ _ => leads_of_mem_samePath hu hl) _ _ hcycle)
  · intro id i hi arm harm last p hleads hp
    -- Inspect shapes and products are not touched; only the ways between them go through the union.
    have hne : ∀ {id : TypeId} {shape : Shape}, (∀ inner, shape ≠ .union inner) →
        (define u (.union l') b).2.body? id = some shape → b.body? id = some shape := by
      intro id shape hshape hbody
      rw [body?_define_union hu] at hbody
      by_cases heq : id = u
      · rw [if_pos heq] at hbody
        cases hbody
        exact absurd rfl (hshape l')
      · rwa [if_neg heq] at hbody
    refine hreads id i (hne (by simp) hi) arm harm last p ?_ (hne (by simp) hp)
    exact Relation.reflTransGen_closed
      (fun _ _ hnext => (leadsByUnions_of_mem_alternatives hu hl hnext).to_reflTransGen)
      _ _ hleads

end

end Builder

end TypedTree
