/-
Translation in so many rounds.

The recursion of a translation goes along a rank that is only known to exist, so it cannot
be run by the definition. With a bound on the rounds it can, and what it gives within the
bound is the answer. Main statements:

* `AgreesUnless` — two results are the same, unless the first is a failure that stops a run;
* `Registry.answerWithin` — an answer sought in at most so many rounds;
* `Registry.answerWithin_refines` — the answer, unless the rounds ran out;
* `Registry.answer_eq_of_answerWithin` — what is found before the rounds run out is the answer.

Design notes: running out of rounds is an error that no union takes for a rejection, so it
gets through to the top. Inspect shapes are not entered.
-/
import TypedTree.Proofs.Translation.Request

namespace TypedTree

/-! ### Results up to failures that stop a run -/

/-- A result is the same as another one, unless it is a failure that stops a run. -/
def AgreesUnless {α : Type} (stops : TranslationError → Prop) (a b : Except TranslationError α) :
    Prop :=
  (∃ e, stops e ∧ a = .error e) ∨ a = b

namespace AgreesUnless

variable {α β : Type} {stops : TranslationError → Prop}

theorem refl (a : Except TranslationError α) : AgreesUnless stops a a := .inr rfl

theorem bind {a b : Except TranslationError α} {f g : α → Except TranslationError β}
    (h : AgreesUnless stops a b) (hfg : ∀ x, AgreesUnless stops (f x) (g x)) :
    AgreesUnless stops (a >>= f) (b >>= g) := by
  rcases h with ⟨e, he, rfl⟩ | rfl
  · exact .inl ⟨e, he, rfl⟩
  · cases a with
    | error e => exact .inr rfl
    | ok x => exact hfg x

theorem map {a b : Except TranslationError α} (f : α → β) (h : AgreesUnless stops a b) :
    AgreesUnless stops (f <$> a) (f <$> b) := by
  rcases h with ⟨e, he, rfl⟩ | rfl
  · exact .inl ⟨e, he, rfl⟩
  · exact .inr rfl

theorem mapM {f g : α → Except TranslationError β} : ∀ {l : List α},
    (∀ x ∈ l, AgreesUnless stops (f x) (g x)) → AgreesUnless stops (l.mapM f) (l.mapM g) := by
  intro l
  induction l with
  | nil => exact fun _ => .inr rfl
  | cons x l ih =>
    intro h
    obtain ⟨hx, hl⟩ := List.forall_mem_cons.mp h
    rw [List.mapM_cons, List.mapM_cons]
    exact hx.bind fun y => (ih hl).bind fun ys => .refl _

/-- A failure that stops a run may not be taken for a rejection. -/
theorem firstAccepted {f g : α → Except TranslationError Value} {path : Path}
    {exhausted : TranslationError} (hstops : ∀ e, stops e → e.rejectedAt path = false) :
    ∀ {l : List α}, (∀ x ∈ l, AgreesUnless stops (f x) (g x)) →
    AgreesUnless stops (TypedTree.firstAccepted path exhausted f l)
      (TypedTree.firstAccepted path exhausted g l) := by
  intro l
  induction l with
  | nil => exact fun _ => .inr rfl
  | cons x l ih =>
    intro h
    obtain ⟨hx, hl⟩ := List.forall_mem_cons.mp h
    rw [TypedTree.firstAccepted, TypedTree.firstAccepted]
    rcases hx with ⟨e, he, hfx⟩ | hfx
    · rw [hfx]
      dsimp only
      rw [hstops e he]
      exact .inl ⟨e, he, rfl⟩
    · rw [hfx]
      cases g x with
      | ok v => exact .inr rfl
      | error e =>
        dsimp only
        split
        · exact ih hl
        · exact .inr rfl

end AgreesUnless

/-! ### Running out of rounds -/

/-- The failure of a search that ran out of rounds. -/
def outOfRounds : TranslationError := .unknownType ""

/-- A result agrees with another unless the rounds ran out. -/
def Refines {α : Type} (a b : Except TranslationError α) : Prop := a = .error outOfRounds ∨ a = b

theorem refines_iff_agreesUnless {α : Type} {a b : Except TranslationError α} :
    Refines a b ↔ AgreesUnless (· = outOfRounds) a b := by
  simp [Refines, AgreesUnless]

namespace Refines

variable {α β : Type}

theorem refl (a : Except TranslationError α) : Refines a a := .inr rfl

theorem bind {a b : Except TranslationError α} {f g : α → Except TranslationError β}
    (h : Refines a b) (hfg : ∀ x, Refines (f x) (g x)) : Refines (a >>= f) (b >>= g) := by
  simp only [refines_iff_agreesUnless] at *
  exact h.bind hfg

theorem map {a b : Except TranslationError α} (f : α → β) (h : Refines a b) :
    Refines (f <$> a) (f <$> b) := by
  rw [refines_iff_agreesUnless] at *
  exact h.map f

theorem mapM {f g : α → Except TranslationError β} (h : ∀ x, Refines (f x) (g x))
    (l : List α) : Refines (l.mapM f) (l.mapM g) := by
  simp only [refines_iff_agreesUnless] at *
  exact AgreesUnless.mapM fun x _ => h x

theorem firstAccepted {f g : α → Except TranslationError Value} (h : ∀ x, Refines (f x) (g x))
    (path : Path) (exhausted : TranslationError) (l : List α) :
    Refines (TypedTree.firstAccepted path exhausted f l)
      (TypedTree.firstAccepted path exhausted g l) := by
  simp only [refines_iff_agreesUnless] at *
  refine AgreesUnless.firstAccepted ?_ fun x _ => h x
  rintro e rfl
  rfl

end Refines

namespace Registry

/-- An answer sought in at most so many rounds. -/
def answerWithin (reg : Registry) (limit : Nat) : Nat → Request → Except TranslationError Value
  | 0, _ => .error outOfRounds
  | rounds + 1, r =>
    match reg.shape r.id with
    | .primitive kind => reg.translatePrimitive r.id kind r.source r.path
    | .nameSet => reg.translateNames r.id r.source r.path
    | .array item =>
      match r.source with
      | some (.arr items) => do
        let values ← (stripRest items).zipIdx.mapM fun x =>
          reg.answerWithin limit rounds (r.item item x.1 x.2)
        return .list values
      | _ => .error (reg.mismatch r.id r.path r.source)
    | .nullable inner =>
      if r.source.all Json.isNull then .ok .null
      else
        match reg.answerWithin limit rounds (r.as inner) with
        | .ok value => .ok value
        | .error e =>
          if e.rejectedAt r.path then .error (reg.mismatch r.id r.path r.source) else .error e
    | .union alternatives =>
      firstAccepted r.path (reg.exhausted r.id r.path r.source)
        (fun a => reg.answerWithin limit rounds (r.as a)) alternatives
    | .product p =>
      match reg.matchRecord r.id p.source r.source r.path with
      | .error e => .error e
      | .ok record =>
        if r.depth < limit then do
          let slots ← p.fields.mapM fun field =>
            if field.isComputed then .ok none
            else
              some <$>
                match reg.readField field record r.path r.preset with
                | .settled result => result
                | .translate source path =>
                  reg.answerWithin limit rounds (r.part field.type source path)
          return reg.buildNode r.id p record slots
        else .error (.recursionLimit r.path)
    | .inspect _ => .error outOfRounds

variable {reg : Registry} {limit : Nat}

/-- What is found within the bound is the answer. -/
theorem answerWithin_refines (rounds : Nat) :
    ∀ r, Refines (reg.answerWithin limit rounds r) (reg.answer limit r) := by
  -- Round by round; the two computations go through the same cases of the shape.
  induction rounds with
  | zero => exact fun r => .inl rfl
  | succ rounds ih =>
    intro r
    rw [answerWithin]
    cases hshape : reg.shape r.id with
    | primitive kind => exact .inr (answer_primitive hshape).symm
    | nameSet => exact .inr (answer_nameSet hshape).symm
    | array item =>
      rw [answer_array hshape]
      dsimp only
      generalize r.source = source
      rcases source with _ | (_ | _ | _ | _ | items | _)
      case some.arr => exact (Refines.mapM (fun x => ih _) _).bind fun values => .refl _
      all_goals exact .refl _
    | nullable inner =>
      rw [answer_nullable hshape]
      dsimp only
      split
      · exact .refl _
      · rcases ih (r.as inner) with h | h
        · rw [h]
          exact .inl rfl
        · rw [h]
          exact .refl _
    | union alternatives =>
      rw [answer_union hshape]
      exact Refines.firstAccepted (fun a => ih _) _ _ _
    | product p =>
      rw [answer_product hshape]
      dsimp only
      cases reg.matchRecord r.id p.source r.source r.path with
      | error e => exact .refl _
      | ok record =>
        dsimp only
        split
        · refine (Refines.mapM (fun field => ?_) _).bind fun slots => .refl _
          split
          · exact .refl _
          · rw [answerField]
            refine Refines.map _ ?_
            cases reg.readField field record r.path r.preset with
            | settled result => exact .refl _
            | translate source path => exact ih _
        · exact .refl _
    | inspect i => exact .inl rfl

/-- What is found before the rounds run out is the answer. -/
theorem answer_eq_of_answerWithin {rounds : Nat} {r : Request}
    {x : Except TranslationError Value} (hx : x ≠ .error outOfRounds)
    (h : reg.answerWithin limit rounds r = x) : reg.answer limit r = x := by
  have hr : Refines (reg.answerWithin limit rounds r) (reg.answer limit r) :=
    answerWithin_refines rounds r
  rcases hr with hr | hr
  · exact absurd (h.symm.trans hr) hx
  · exact hr.symm.trans h

/-- Whether a source is translated within the bound, as a value that passes a check. -/
def translatesWithin (reg : Registry) (limit rounds : Nat) (id : TypeId) (source : Json)
    (check : Value → Bool) : Bool :=
  reg.contains id &&
    match reg.answerWithin limit rounds ⟨id, some source, .root, none, 0⟩ with
    | .ok v => check v
    | .error _ => false

theorem exists_of_translatesWithin {rounds : Nat} {id : TypeId} {source : Json}
    {check : Value → Bool} (h : reg.translatesWithin limit rounds id source check = true) :
    ∃ v, reg.translate limit id source = .ok v ∧ check v = true := by
  obtain ⟨hid, h⟩ := Bool.and_eq_true_iff.mp h
  rw [translate, if_pos hid]
  split at h
  · next v hv => exact ⟨v, answer_eq_of_answerWithin (fun h => by cases h) hv, h⟩
  · cases h

theorem exists_answer_of_translatesWithin {rounds : Nat} {id : TypeId} {source : Json}
    {check : Value → Bool} (h : reg.translatesWithin limit rounds id source check = true) :
    ∃ v, reg.answer limit ⟨id, some source, .root, none, 0⟩ = .ok v := by
  obtain ⟨v, hv, -⟩ := exists_of_translatesWithin h
  rw [translate, if_pos (Bool.and_eq_true_iff.mp h).1] at hv
  exact ⟨v, hv⟩

/-- Whether a translation fails within the bound, with a failure that passes a check. -/
def failsWithin (reg : Registry) (limit rounds : Nat) (id : TypeId) (source : Json)
    (check : TranslationError → Bool) : Bool :=
  reg.contains id &&
    match reg.answerWithin limit rounds ⟨id, some source, .root, none, 0⟩ with
    | .error (.unknownType _) | .ok _ => false
    | .error e => check e

theorem exists_of_failsWithin {rounds : Nat} {id : TypeId} {source : Json}
    {check : TranslationError → Bool} (h : reg.failsWithin limit rounds id source check = true) :
    ∃ e, reg.translate limit id source = .error e ∧ check e = true := by
  obtain ⟨hid, h⟩ := Bool.and_eq_true_iff.mp h
  rw [translate, if_pos hid]
  split at h
  · cases h
  · cases h
  · next e hknown he =>
    refine ⟨e, answer_eq_of_answerWithin ?_ he, h⟩
    intro hout
    cases hout
    exact hknown _ rfl

/-- Whether a source is rejected within the bound. -/
def rejectsWithin (reg : Registry) (limit rounds : Nat) (id : TypeId) (source : Json) : Bool :=
  reg.contains id &&
    match reg.answerWithin limit rounds ⟨id, some source, .root, none, 0⟩ with
    | .error (.rejected _) => true
    | _ => false

theorem exists_of_rejectsWithin {rounds : Nat} {id : TypeId} {source : Json}
    (h : reg.rejectsWithin limit rounds id source = true) :
    ∃ e, reg.translate limit id source = .error (.rejected e) := by
  obtain ⟨hid, h⟩ := Bool.and_eq_true_iff.mp h
  rw [translate, if_pos hid]
  split at h
  · next e he => exact ⟨e, answer_eq_of_answerWithin (fun h => by cases h) he⟩
  · cases h

end Registry

end TypedTree
