/-
The limit of nested nodes only cuts off.

A translation whose nodes are nested too deep fails, and no other choice is made in its place.
Main statements:

* `Registry.answer_agrees` — what a run gives does not change with a larger limit, unless it
  was cut off;
* `Registry.Settles.answer_eq_of_final` — a request that is handed on at its place fails with
  the failure it meets there, if that is no rejection at this place;
* `Registry.limit_only_cuts_off` — both for whole sources and for failures at the limit.

Design notes: a smaller limit may cut a run off where a larger one lets it go on, so the two
runs are compared as far as the first one comes.
-/
import TypedTree.Proofs.Translation.Bounded
import TypedTree.Proofs.Translation.Construction

namespace TypedTree

/-- A failure is that of a run that was cut off at the limit. -/
def TranslationError.CutsOff (e : TranslationError) : Prop := ∃ place, e = .recursionLimit place

theorem TranslationError.CutsOff.rejectedAt {e : TranslationError} (h : e.CutsOff) (path : Path) :
    e.rejectedAt path = false := by
  obtain ⟨place, rfl⟩ := h
  rfl

namespace Registry

variable {reg : Registry} {limit limit' : Nat} {r s : Request}

/-! ### Two limits -/

theorem answerField_agrees {record : Json.Record} {field : Field}
    (h : ∀ source path, AgreesUnless TranslationError.CutsOff
      (reg.answer limit (r.part field.type source path))
      (reg.answer limit' (r.part field.type source path))) :
    AgreesUnless TranslationError.CutsOff (reg.answerField limit r record field)
      (reg.answerField limit' r record field) := by
  rw [answerField, answerField]
  cases reg.readField field record r.path r.preset with
  | settled result => exact .refl _
  | translate source path => exact h source path

/-- The answer does not change with a larger limit, unless it was cut off. -/
theorem answer_agrees (reg : Registry) (hlimit : limit ≤ limit') : ∀ r : Request,
    AgreesUnless TranslationError.CutsOff (reg.answer limit r) (reg.answer limit' r) := by
  -- By induction on what a request leads to below the smaller limit. Where a result is looked
  -- at before the next step, a run that was cut off stops there, and one that was not goes on
  -- with the same result.
  refine request_induction reg limit ?_
  intro r ih
  cases hshape : reg.shape r.id with
  | primitive kind =>
    rw [answer_primitive hshape, answer_primitive hshape]
    exact .refl _
  | nameSet =>
    rw [answer_nameSet hshape, answer_nameSet hshape]
    exact .refl _
  | array item =>
    rw [answer_array hshape, answer_array hshape]
    split
    · next items hsource =>
      exact (AgreesUnless.mapM fun x hx => ih _ (.item hshape hsource hx)).bind
        fun values => .refl _
    · exact .refl _
  | nullable inner =>
    rw [answer_nullable hshape, answer_nullable hshape]
    split
    · exact .refl _
    · have hmem : inner ∈ (reg.shape r.id).samePath := by simp [hshape, Shape.samePath]
      rcases ih _ (.samePath hmem) with ⟨e, he, hinner⟩ | hinner
      · rw [hinner]
        dsimp only
        rw [he.rejectedAt]
        exact .inl ⟨e, he, rfl⟩
      · rw [hinner]
        exact .refl _
  | union alternatives =>
    rw [answer_union hshape, answer_union hshape]
    exact AgreesUnless.firstAccepted (fun e he => he.rejectedAt _)
      fun a ha => ih _ (.samePath (by simpa [hshape, Shape.samePath] using ha))
  | product p =>
    rw [answer_product hshape, answer_product hshape]
    cases reg.matchRecord r.id p.source r.source r.path with
    | error e => exact .refl _
    | ok record =>
      dsimp only
      by_cases hwithin : r.depth < limit
      · rw [if_pos hwithin, if_pos (Nat.lt_of_lt_of_le hwithin hlimit)]
        refine (AgreesUnless.mapM fun field _ => ?_).bind fun slots => .refl _
        split
        · exact .refl _
        · exact (answerField_agrees fun source path => ih _ (.field hwithin)).map _
      · rw [if_neg hwithin]
        exact .inl ⟨_, ⟨r.path, rfl⟩, rfl⟩
  | inspect i =>
    rw [answer_inspect hshape, answer_inspect hshape]
    split
    · exact .refl _
    · next record hrecord =>
      rcases ih _ (.probe hshape hrecord) with ⟨e, he, hprobe⟩ | hprobe
      · rw [hprobe]
        exact .inl ⟨e, he, rfl⟩
      · rw [hprobe]
        split
        · exact .refl _
        · split
          · exact .refl _
          · next arm harm =>
            refine ih _ (.target ?_)
            rw [hshape]
            exact List.mem_map_of_mem (List.mem_of_find?_eq_some harm)

/-! ### Failures that are handed on -/

/-- A request that is handed on at its place fails with the failure it meets there, if that is
no rejection at this place. -/
theorem Settles.answer_eq_of_final (h : reg.Settles limit r s) {e : TranslationError}
    (he : reg.answer limit s = .error e) (hfinal : e.rejectedAt r.path = false) :
    reg.answer limit r = .error e := by
  rcases h with hpass | ⟨i, probed, hhand⟩
  · cases hpass with
    | inner shape present =>
      rw [answer_nullable shape, if_neg (by simp [present]), he]
      dsimp only
      rw [if_neg (by simp [hfinal])]
    | alternative shape rejected =>
      rw [answer_union shape, firstAccepted_append rejected, firstAccepted, he]
      dsimp only
      rw [if_neg (by simp [hfinal])]
  · exact hhand.answer_eq.trans he

/-- What is translated within a limit is translated to the same value within a larger one, and
fails in the same way, unless the limit cut it off. No nullable, union or inspect shape that
meets a failure at the limit goes on as if a value had been rejected. -/
theorem limit_only_cuts_off (reg : Registry) (hlimit : limit ≤ limit') :
    (∀ (id : TypeId) (source : Json),
      (∃ place, reg.translate limit id source = .error (.recursionLimit place)) ∨
        reg.translate limit' id source = reg.translate limit id source) ∧
    (∀ (r s : Request) (place : Path), reg.Settles limit r s →
      reg.answer limit s = .error (.recursionLimit place) →
      reg.answer limit r = .error (.recursionLimit place)) ∧
    ∀ (r : Request) (i : Inspect) (record : Json.Record) (place : Path),
      reg.shape r.id = .inspect i → reg.inspectable? i r.source = some record →
      reg.answer limit (r.probe i record) = .error (.recursionLimit place) →
      reg.answer limit r = .error (.recursionLimit place) := by
  refine ⟨?_, fun r s place hstep he => hstep.answer_eq_of_final he rfl, ?_⟩
  · intro id source
    rw [translate_eq, translate_eq]
    split
    · rcases answer_agrees reg hlimit (.whole id source) with ⟨e, ⟨place, rfl⟩, he⟩ | heq
      · exact .inl ⟨place, he⟩
      · exact .inr heq.symm
    · exact .inr rfl
  · intro r i record place hshape hrecord he
    rw [answer_inspect hshape, hrecord]
    dsimp only
    rw [he]

/-! ### A chain of branches -/

/-- Branches that end in a leaf. -/
def branches : Builder := { declarations := [
  { name := "Branch", body := some (.product {
      source := { tag := "Branch" }, fields := [.required "next" ⟨2⟩] }) },
  { name := "Leaf", body := some (.product { source := { tag := "Leaf" }, fields := [] }) },
  { name := "Tree", body := some (.union [⟨0⟩, ⟨1⟩]) }] }

/-- So many branches and a leaf. -/
def branchSource : Nat → Json
  | 0 => .obj [("type", .str "Leaf")]
  | count + 1 => .obj [("type", .str "Branch"), ("next", branchSource count)]

/-- Whether a failure is that of a run that was cut off. -/
def isCutOff : TranslationError → Bool
  | .recursionLimit _ => true
  | .rejected _ | .unknownType _ => false

theorem exists_of_isCutOff {e : TranslationError} (h : isCutOff e = true) :
    ∃ place, e = .recursionLimit place := by
  cases e with
  | recursionLimit place => exact ⟨place, rfl⟩
  | rejected | unknownType => cases h

/-- Two branches and a leaf are cut off at two nodes. What they are translated to within three
nodes stays the same within 256. -/
theorem limit_only_cuts_off_branches : ∃ reg, branches.freeze = .ok reg ∧ 3 ≤ 256 ∧
    (∃ place, reg.translate 2 ⟨2⟩ (branchSource 2) = .error (.recursionLimit place)) ∧
    ∃ v, reg.translate 3 ⟨2⟩ (branchSource 2) = .ok v ∧
      reg.translate 256 ⟨2⟩ (branchSource 2) = .ok v := by
  obtain ⟨reg, hb, hcheck⟩ : ∃ reg, branches.freeze = .ok reg ∧
      (reg.failsWithin 2 6 ⟨2⟩ (branchSource 2) isCutOff &&
        reg.translatesWithin 3 6 ⟨2⟩ (branchSource 2) fun _ => true) = true :=
    exists_of_check (by decide +kernel)
  obtain ⟨hcut, hv⟩ := Bool.and_eq_true_iff.mp hcheck
  obtain ⟨e, he, hcut⟩ := exists_of_failsWithin hcut
  obtain ⟨place, rfl⟩ := exists_of_isCutOff hcut
  obtain ⟨v, hv, -⟩ := exists_of_translatesWithin hv
  refine ⟨reg, hb, by decide, ⟨place, he⟩, v, hv, ?_⟩
  rcases (limit_only_cuts_off reg (by decide : 3 ≤ 256)).1 ⟨2⟩ (branchSource 2) with
    ⟨place, he⟩ | heq
  · cases hv.symm.trans he
  · exact heq.trans hv

end Registry

end TypedTree
