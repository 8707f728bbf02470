/-
Nested unions flatten.

A union in a union says no more than its alternatives in its place. Main statements:

* `firstAccepted_splice`, `firstAccepted_drop` — an ordered choice with a choice in it is one
  choice, and an alternative that was tried before has no say;
* `Builder.regroups_of_flattens` — the flattened union offers the same;
* `Builder.answer_of_flattens` — every request is answered alike in both registries;
* `Builder.flatten_unions` — translations, their failures and membership are the same.

Design notes: the failure of an inner union is of another kind than a mismatch, but lies at the
same path. That is all that the outer union looks at.
-/
import TypedTree.Proofs.Schema.Flattening
import TypedTree.Proofs.Translation.Regrouping

namespace TypedTree

/-! ### Ordered choice -/

section

variable {α : Type} {path : Path} {exhausted : TranslationError}
  {f : α → Except TranslationError Value}

/-- Either one of the first alternatives decides, whatever follows, or all of them are rejected. -/
theorem firstAccepted_append_cases (path : Path) (f : α → Except TranslationError Value)
    (before : List α) :
    (∃ a ∈ before, (∀ e, f a = .error e → e.rejectedAt path = false) ∧
        ∀ exhausted rest, firstAccepted path exhausted f (before ++ rest) = f a) ∨
      ∀ a ∈ before, ∃ e, f a = .error e ∧ e.rejectedAt path = true := by
  induction before with
  | nil => exact .inr (by simp)
  | cons a before ih =>
    rcases rejected_or_final path f a with hrej | hfinal
    · rcases ih with ⟨b, hb, hfinal, heq⟩ | hall
      · exact .inl ⟨b, List.mem_cons_of_mem _ hb, hfinal, fun exhausted rest =>
          (firstAccepted_cons_of_rejected hrej).trans (heq exhausted rest)⟩
      · exact .inr (List.forall_mem_cons.mpr ⟨hrej, hall⟩)
    · exact .inl ⟨a, List.mem_cons_self, hfinal, fun _ _ => firstAccepted_cons_of_final hfinal⟩

/-- An alternative that is a choice of its own can be replaced by what it chooses from. -/
theorem firstAccepted_splice {before inner after : List α} {a : α} {e : TranslationError}
    (he : e.rejectedAt path = true) (ha : f a = firstAccepted path e f inner) :
    firstAccepted path exhausted f (before ++ inner ++ after) =
      firstAccepted path exhausted f (before ++ a :: after) := by
  rw [List.append_assoc]
  rcases firstAccepted_append_cases path f before with ⟨b, -, -, heq⟩ | hbefore
  · rw [heq, heq]
  rw [firstAccepted_append hbefore, firstAccepted_append hbefore]
  rcases firstAccepted_append_cases path f inner with ⟨b, -, hfinal, heq⟩ | hinner
  · have hab : f a = f b := by rw [ha, ← heq e [], List.append_nil]
    rw [heq, firstAccepted_cons_of_final (hab ▸ hfinal), hab]
  · -- The inner choice fails with a rejection of its own, at the same path.
    have hab : f a = .error e := by
      rw [ha, ← List.append_nil inner, firstAccepted_append hinner]
      rfl
    rw [firstAccepted_append hinner, firstAccepted_cons_of_rejected ⟨e, hab, he⟩]

/-- An alternative that was tried before has no say. -/
theorem firstAccepted_drop {before after : List α} {a : α} (h : a ∈ before) :
    firstAccepted path exhausted f (before ++ after) =
      firstAccepted path exhausted f (before ++ a :: after) := by
  rcases firstAccepted_append_cases path f before with ⟨b, -, -, heq⟩ | hbefore
  · rw [heq, heq]
  · rw [firstAccepted_append hbefore, firstAccepted_append hbefore,
      firstAccepted_cons_of_rejected (hbefore a h)]

end

namespace Builder

open Relation (ReflTransGen)

variable {b : Builder} {u : TypeId} {l l' : List TypeId}

/-- A choice among the flattened alternatives is the choice among the given ones. -/
theorem firstAccepted_of_flattens {path : Path} {exhausted : TranslationError}
    {f : TypeId → Except TranslationError Value}
    (hf : ∀ id inner, b.body? id = some (.union inner) →
      ∃ e, e.rejectedAt path = true ∧ f id = firstAccepted path e f inner)
    (h : ReflTransGen b.Flattens l l') :
    firstAccepted path exhausted f l' = firstAccepted path exhausted f l := by
  induction h with
  | refl => rfl
  | tail _ hstep ih =>
    rw [← ih]
    cases hstep with
    | drop mem => exact firstAccepted_drop mem
    | splice body =>
      obtain ⟨e, he, heq⟩ := hf _ _ body
      exact firstAccepted_splice he heq

/-- A test that goes through unions passes some flattened alternative if it passes some given
one. -/
theorem any_of_flattens {test : TypeId → Bool}
    (htest : ∀ id inner, b.body? id = some (.union inner) → test id = inner.any test)
    (h : ReflTransGen b.Flattens l l') : l'.any test = l.any test := by
  induction h with
  | refl => rfl
  | tail _ hstep ih =>
    rw [← ih]
    cases hstep with
    | @drop before after id mem =>
      have hid : test id = true → before.any test = true :=
        fun hpass => List.any_eq_true.mpr ⟨id, mem, hpass⟩
      rw [List.any_append, List.any_append, List.any_cons]
      by_cases hpass : test id = true
      · simp [hid hpass]
      · simp [hpass]
    | splice body => simp [htest _ _ body]

/-! ### The flattened registry -/

section

variable {reg reg' : Registry} {limit : Nat} (h : b.freeze = .ok reg)
  (hu : b.body? u = some (.union l)) (hl : ReflTransGen b.Flattens l l')
  (h' : (define u (.union l') b).2.freeze = .ok reg')
include h hu h'

theorem shape_of_flattens (id : TypeId) :
    reg'.shape id = if id = u then .union l' else reg.shape id := by
  rw [shape_of_freeze h', shape_of_freeze h, body?_define_union hu]
  by_cases hid : id = u <;> simp [hid]

include hl

/-- The flattened union offers the same. -/
theorem regroups_of_flattens : reg.Regroups reg' := by
  have hname : ∀ id, reg'.name id = reg.name id := fun id => by
    rw [name_of_freeze h', name_of_freeze h, name_define]
  have hbody : reg.shape u = .union l := by rw [shape_of_freeze h, hu, Option.getD_some]
  refine ⟨by rw [size_of_freeze h', size_of_freeze h, size_define], hname, ?_, fun id => ?_⟩
  · intro id p hp
    have hne : id ≠ u := by
      rintro rfl
      rw [hbody] at hp
      cases hp
    have hp' : reg'.shape id = .product p := by rw [shape_of_flattens h hu h', if_neg hne, hp]
    have hplan := plan_of_freeze h' hp'
    rw [hname, plan_of_freeze h hp] at hplan
    exact (Except.ok.inj hplan).symm
  · rw [shape_of_flattens h hu h']
    by_cases hid : id = u
    · rw [hid, if_pos rfl, hbody]
      refine .union fun test htest => any_of_flattens (fun id inner hinner => ?_) hl
      exact htest id inner (by rw [shape_of_freeze h, hinner, Option.getD_some])
    · rw [if_neg hid]
      exact .same _

/-- Every request is answered alike. -/
theorem answer_of_flattens : ∀ r : Request, reg'.answer limit r = reg.answer limit r := by
  -- Only the union itself has another body. There a nested union may fail with its own failure,
  -- which is a rejection at the path like that of the whole, so it makes no difference to the
  -- choice.
  have hregroups := regroups_of_flattens h hu hl h'
  refine Registry.request_induction reg' limit fun r ih => ?_
  have hshape := shape_of_flattens h hu h' r.id
  by_cases hid : r.id = u
  · rw [if_pos hid] at hshape
    have hbody : reg.shape r.id = .union l := by
      rw [hid, shape_of_freeze h, hu, Option.getD_some]
    have hsame : ∀ a ∈ l', reg'.answer limit (r.as a) = reg.answer limit (r.as a) :=
      fun a ha => ih _ (.samePath (by rw [hshape]; exact ha))
    have hunions : ∀ id inner, b.body? id = some (.union inner) →
        ∃ e, e.rejectedAt r.path = true ∧ reg.answer limit (r.as id) =
          firstAccepted r.path e (fun a => reg.answer limit (r.as a)) inner := by
      intro id inner hinner
      refine ⟨reg.exhausted id r.path r.source, by simp [Registry.exhausted,
        TranslationError.rejectedAt], Registry.answer_union (r := r.as id) ?_⟩
      show reg.shape id = .union inner
      rw [shape_of_freeze h, hinner, Option.getD_some]
    calc reg'.answer limit r
        = firstAccepted r.path (reg.exhausted r.id r.path r.source)
            (fun a => reg'.answer limit (r.as a)) l' := by
          rw [Registry.answer_union hshape, hregroups.exhausted_eq]
      _ = firstAccepted r.path (reg.exhausted r.id r.path r.source)
            (fun a => reg.answer limit (r.as a)) l' := firstAccepted_congr_of_mem hsame
      _ = firstAccepted r.path (reg.exhausted r.id r.path r.source)
            (fun a => reg.answer limit (r.as a)) l := firstAccepted_of_flattens hunions hl
      _ = reg.answer limit r := (Registry.answer_union hbody).symm
  · rw [if_neg hid] at hshape
    calc reg'.answer limit r
        = reg'.translateRound limit (reg.answer limit) r :=
          (Registry.translateRound_eq_answer fun r' hr' =>
            (ih r' (Registry.of_mem_leadsTo hr').1).symm).symm
      _ = reg.translateRound limit (reg.answer limit) r := hregroups.translateRound_eq hshape
      _ = reg.answer limit r := Registry.translateRound_eq_answer fun _ _ => rfl

end

/-- Where a schema can be frozen, it can be frozen with a flattened union. Types keep their names,
and every source translates to the same value or fails in the same way, as every type and below
every limit. The same values belong to every type. -/
theorem flatten_unions {reg : Registry} (h : b.freeze = .ok reg)
    (hu : b.body? u = some (.union l)) (hl : ReflTransGen b.Flattens l l') :
    ∃ reg', (define u (.union l') b).2.freeze = .ok reg' ∧
      (∀ id, reg'.name id = reg.name id) ∧
      (∀ limit id source, reg'.translate limit id source = reg.translate limit id source) ∧
      ∀ id v, reg'.isInstance id v = reg.isInstance id v := by
  obtain ⟨reg', h'⟩ := exists_freeze_of_flattens hu hl h
  have hregroups := regroups_of_flattens h hu hl h'
  refine ⟨reg', h', hregroups.name, ?_, hregroups.isInstance_eq⟩
  intro limit id source
  have hcontains : reg'.contains id = reg.contains id := by
    rw [Registry.contains, Registry.contains, hregroups.size]
  rw [Registry.translate_eq, Registry.translate_eq, hcontains, answer_of_flattens h hu hl h']

/-- A union with a union in it, which is reached again below a product. -/
def nestedUnions : Builder := { declarations := [
  { name := "string", body := some (.primitive .string) },
  { name := "Leaf", body := some (.product {
      source := { tag := "Leaf" }, fields := [.required "of" ⟨3⟩] }) },
  { name := "Inner", body := some (.union [⟨0⟩, ⟨1⟩]) },
  { name := "Outer", body := some (.union [⟨2⟩, ⟨1⟩, ⟨0⟩]) }] }

/-- What is left of the outer union are the alternatives of the inner one, in their order. -/
theorem flatten_unions_nested : ∃ reg reg', nestedUnions.freeze = .ok reg ∧
    (define ⟨3⟩ (.union [⟨0⟩, ⟨1⟩]) nestedUnions).2.freeze = .ok reg' ∧
    ∀ limit id source, reg'.translate limit id source = reg.translate limit id source := by
  obtain ⟨reg, hreg, -⟩ : ∃ reg, nestedUnions.freeze = .ok reg ∧ true = true :=
    exists_of_check (by decide +kernel)
  have hsplice : nestedUnions.Flattens [⟨2⟩, ⟨1⟩, ⟨0⟩] [⟨0⟩, ⟨1⟩, ⟨1⟩, ⟨0⟩] :=
    @Flattens.splice _ [] _ [⟨0⟩, ⟨1⟩] _ rfl
  have hflat : ReflTransGen nestedUnions.Flattens [⟨2⟩, ⟨1⟩, ⟨0⟩] [⟨0⟩, ⟨1⟩] :=
    .head hsplice (flattens_distinct _ _)
  obtain ⟨reg', hreg', -, htranslate, -⟩ := flatten_unions (u := ⟨3⟩) hreg rfl hflat
  exact ⟨reg, reg', hreg, hreg', htranslate⟩

end Builder

end TypedTree
