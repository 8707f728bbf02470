/-
What a final failure of a union says about the record.

A union goes on to its next alternative only where a record is rejected at its own place.
Main statements:

* `SourcePattern.Admits` — a record has the tag and the entries that a pattern asks for;
* `Registry.Reads` — a type leads, at the same place, to a product whose pattern admits a
  record;
* `Registry.Refuses` — every product there with the tag of the record misses an entry, which is to
  say that none reads it (`Registry.not_reads_iff_refuses`);
* `Registry.ProbeFails` — a type leads, at the same place, to an inspect shape that looks
  into a record and fails on its field;
* `Registry.commit` — a failure that is final comes from one of the two.

Design notes: an inspect shape looks into a record as soon as a target has the record's
tag. The entries that the target asks for are only read after that, so a probe may fail
in a record that no pattern admits.
-/
import TypedTree.Proofs.Schema.Check
import TypedTree.Proofs.Schema.Freeze
import TypedTree.Proofs.Translation.Bounded

namespace TypedTree

/-! ### Source patterns -/

/-- A record has the tag and the entries that a pattern asks for. -/
def SourcePattern.Admits (pattern : SourcePattern) (record : Json.Record) : Prop :=
  record.tag? = some pattern.tag ∧
    ∀ entry ∈ pattern.literals, ∃ value, record.get? entry.1 = some value ∧
      value.same entry.2 = true

/-- A failure at a place strictly below a path. -/
def TranslationError.Below (path : Path) (e : TranslationError) : Prop :=
  ∃ place : Path, (e = .recursionLimit place ∨ ∃ r, e = .rejected r ∧ r.path = place) ∧
    place ≠ path ∧ place.startsWith path = true

theorem TranslationError.Below.rejectedAt_eq_false {path : Path} {e : TranslationError}
    (h : e.Below path) : e.rejectedAt path = false := by
  obtain ⟨place, rfl | ⟨r, rfl, rfl⟩, hne, -⟩ := h
  · rfl
  · exact decide_eq_false hne

namespace Registry

variable {reg : Registry} {limit : Nat} {r : Request} {record : Json.Record}

theorem firstUnmet?_eq_none_iff {literals : List (String × Json)} :
    firstUnmet? record literals = none ↔
      ∀ entry ∈ literals, ∃ value, record.get? entry.1 = some value ∧
        value.same entry.2 = true := by
  induction literals with
  | nil => simp [firstUnmet?]
  | cons entry literals ih =>
    obtain ⟨key, literal⟩ := entry
    rw [firstUnmet?, List.forall_mem_cons]
    cases hget : record.get? key with
    | none => simp
    | some value =>
      by_cases hsame : value.same literal = true
      · simp [hsame, ih]
      · simp [hsame]

theorem matchRecord_eq_ok_iff {id : TypeId} {pattern : SourcePattern} {source : Option Json}
    {path : Path} : reg.matchRecord id pattern source path = .ok record ↔
      source = some (.obj record) ∧ pattern.Admits record := by
  unfold matchRecord
  split
  · next found =>
    rw [SourcePattern.Admits, ← firstUnmet?_eq_none_iff]
    by_cases htag : Json.Record.tag? found = some pattern.tag
    · rw [if_pos htag]
      cases hunmet : firstUnmet? found pattern.literals with
      | none =>
        constructor
        · intro h
          cases h
          exact ⟨rfl, htag, hunmet⟩
        · rintro ⟨h, -⟩
          cases h
          rfl
      | some entry =>
        constructor
        · intro h
          cases h
        · rintro ⟨h, -, hnone⟩
          cases h
          rw [hunmet] at hnone
          cases hnone
    · rw [if_neg htag]
      constructor
      · intro h
        cases h
      · rintro ⟨h, htag', -⟩
        cases h
        exact absurd htag' htag
  · next hnot =>
    constructor
    · intro h
      cases h
    · rintro ⟨rfl, -⟩
      exact absurd rfl (hnot record)

/-! ### Rejections at the path itself -/

theorem rejectedAt_mismatch {id : TypeId} {path : Path} {source : Option Json} :
    (reg.mismatch id path source).rejectedAt path = true := decide_eq_true rfl

theorem rejectedAt_of_matchRecord_eq_error {id : TypeId} {pattern : SourcePattern}
    {source : Option Json} {path : Path} {e : TranslationError}
    (h : reg.matchRecord id pattern source path = .error e) : e.rejectedAt path = true := by
  unfold matchRecord at h
  split at h
  · split at h
    · split at h <;> cases h
      exact decide_eq_true rfl
    · cases h
      exact rejectedAt_mismatch
  · cases h
    exact rejectedAt_mismatch

theorem eq_mismatch_of_translatePrimitive_eq_error {id : TypeId} {kind : Primitive}
    {source : Option Json} {path : Path} {e : TranslationError}
    (h : reg.translatePrimitive id kind source path = .error e) :
    e = reg.mismatch id path source := by
  unfold translatePrimitive at h
  split at h
  · cases h
  · cases h
  · cases h
  · split at h
    · cases h
    · cases h
      rfl
  · cases h
    rfl

theorem rejectedAt_of_translatePrimitive_eq_error {id : TypeId} {kind : Primitive}
    {source : Option Json} {path : Path} {e : TranslationError}
    (h : reg.translatePrimitive id kind source path = .error e) : e.rejectedAt path = true := by
  rw [eq_mismatch_of_translatePrimitive_eq_error h]
  exact rejectedAt_mismatch

/-! ### Where a final failure comes from -/

/-- A type leads, at the same place, to a product whose pattern admits the record. -/
def Reads (reg : Registry) (id : TypeId) (record : Json.Record) : Prop :=
  ∃ last p, reg.SamePath id last ∧ reg.shape last = .product p ∧ p.source.Admits record

/-- Every product that a type leads to, at the same place, and that has the record's tag asks for an
entry that the record has not. -/
def Refuses (reg : Registry) (id : TypeId) (record : Json.Record) : Prop :=
  ∀ last p, reg.SamePath id last → reg.shape last = .product p →
    record.tag? = some p.source.tag → ∃ entry ∈ p.source.literals,
      ∀ value, record.get? entry.1 = some value → value.same entry.2 = false

/-- A type leads, at the same place, to an inspect shape that looks into the record and
fails on its field. A product that it could build has the record's tag. -/
def ProbeFails (reg : Registry) (limit : Nat) (r : Request) (record : Json.Record)
    (e : TranslationError) : Prop :=
  ∃ last i built p, reg.SamePath r.id last ∧ reg.shape last = .inspect i ∧
    reg.SamePath last built ∧ reg.shape built = .product p ∧
    record.tag? = some p.source.tag ∧ reg.answer limit (r.probe i record) = .error e

/-- A record that no product reads is one that all refuse. -/
theorem not_reads_iff_refuses {id : TypeId} : ¬ reg.Reads id record ↔ reg.Refuses id record := by
  constructor
  · intro hnot last p hlast hp htag
    -- The record has the tag, so it must miss an entry.
    by_contra hall
    refine hnot ⟨last, p, hlast, hp, htag, fun entry hentry => ?_⟩
    by_contra hmiss
    refine hall ⟨entry, hentry, fun value hvalue => ?_⟩
    by_contra hsame
    exact hmiss ⟨value, hvalue, by simpa using hsame⟩
  · rintro hrefuses ⟨last, p, hlast, hp, htag, hall⟩
    obtain ⟨entry, hentry, hnone⟩ := hrefuses last p hlast hp htag
    obtain ⟨value, hvalue, hsame⟩ := hall entry hentry
    rw [hnone value hvalue] at hsame
    cases hsame

theorem Reads.step {id next : TypeId} (hnext : next ∈ (reg.shape id).samePath)
    (h : reg.Reads next record) : reg.Reads id record := by
  obtain ⟨last, p, hlast, hp⟩ := h
  exact ⟨last, p, .step hnext hlast, hp⟩

theorem exists_of_buildsFrom {tag : String} {id : TypeId} (h : reg.buildsFrom tag id = true) :
    ∃ last p, reg.SamePath id last ∧ reg.shape last = .product p ∧ p.source.tag = tag := by
  induction hrank : reg.rank id using Nat.strongRecOn generalizing id with
  | _ rank ih =>
    rw [buildsFrom_eq] at h
    rcases Bool.or_eq_true_iff.mp h with hp | hnext
    · split at hp
      · next p hshape =>
        refine ⟨id, p, .refl id, ?_, by simpa using hp⟩
        cases hid : reg.shape id <;> simp only [hid, Shape.asProduct?, reduceCtorEq] at hshape
        cases hshape
        rfl
      · cases hp
    · obtain ⟨next, hmem, hbuilds⟩ := List.any_eq_true.mp hnext
      obtain ⟨last, p, hlast, hp⟩ :=
        ih _ (hrank ▸ reg.samePath_rank_lt hmem) hbuilds rfl
      exact ⟨last, p, .step hmem hlast, hp⟩

theorem exists_of_inspectable? {i : Inspect} {source : Option Json}
    (h : reg.inspectable? i source = some record) :
    ∃ tag, record.tag? = some tag ∧ ∃ arm ∈ i.arms, reg.buildsFrom tag arm.target = true := by
  unfold inspectable? at h
  split at h
  · split at h
    · next tag htag =>
      split at h
      · next hany =>
        cases h
        obtain ⟨arm, harm, hbuilds⟩ := List.any_eq_true.mp hany
        exact ⟨tag, htag, arm, harm, hbuilds⟩
      · cases h
    · cases h
  · cases h

/-! ### Answers that are no rejection at the path itself -/

theorem final_of_eq_error {e : TranslationError} (he : reg.answer limit r = .error e)
    (hfinal : e.rejectedAt r.path = false) :
    ∀ e', reg.answer limit r = .error e' → e'.rejectedAt r.path = false := by
  intro e' he'
  cases he.symm.trans he'
  exact hfinal

section

variable (hfinal : ∀ e, reg.answer limit r = .error e → e.rejectedAt r.path = false)
include hfinal

theorem answer_ne_of_rejectedAt {e : TranslationError} (he : e.rejectedAt r.path = true) :
    reg.answer limit r ≠ .error e := by
  intro h
  rw [hfinal e h] at he
  cases he

/-- Such an answer of a product comes behind its pattern. -/
theorem admits_of_product_final {p : Product} (hshape : reg.shape r.id = .product p) :
    ∃ record, r.source = some (.obj record) ∧ p.source.Admits record := by
  cases hrecord : reg.matchRecord r.id p.source r.source r.path with
  | error e =>
    have hrej := rejectedAt_of_matchRecord_eq_error hrecord
    refine absurd ?_ (answer_ne_of_rejectedAt hfinal hrej)
    rw [answer_product hshape, hrecord]
  | ok record => exact ⟨record, matchRecord_eq_ok_iff.mp hrecord⟩

/-- Such an answer of an inspect shape comes from a record that it looks into. -/
theorem inspectable_of_inspect_final {i : Inspect} (hshape : reg.shape r.id = .inspect i) :
    ∃ record, reg.inspectable? i r.source = some record := by
  cases hrecord : reg.inspectable? i r.source with
  | none =>
    have hmismatch : reg.answer limit r = .error (reg.mismatch r.id r.path r.source) := by
      rw [answer_inspect hshape, hrecord]
    exact absurd hmismatch (answer_ne_of_rejectedAt hfinal rejectedAt_mismatch)
  | some record => exact ⟨record, rfl⟩

/-- Such an answer of a nullable is `null`, or that of the type inside. -/
theorem answer_of_nullable_final {inner : TypeId} (hshape : reg.shape r.id = .nullable inner) :
    r.source.all Json.isNull = true ∧ reg.answer limit r = .ok .null ∨
      reg.answer limit r = reg.answer limit (r.as inner) := by
  have heq : reg.answer limit r = _ := answer_nullable hshape
  by_cases hnull : r.source.all Json.isNull = true
  · exact .inl ⟨hnull, heq.trans (if_pos hnull)⟩
  · rw [if_neg hnull] at heq
    cases hinner : reg.answer limit (r.as inner) with
    | ok v =>
      rw [hinner] at heq
      exact .inr heq
    | error e =>
      rw [hinner] at heq
      dsimp only at heq
      by_cases hrej : e.rejectedAt r.path = true
      · rw [if_pos hrej] at heq
        exact absurd heq (answer_ne_of_rejectedAt hfinal rejectedAt_mismatch)
      · rw [if_neg hrej] at heq
        exact .inr heq

/-- Such an answer of a union is that of an alternative. -/
theorem exists_of_union_final {alternatives : List TypeId}
    (hshape : reg.shape r.id = .union alternatives) :
    ∃ a ∈ alternatives, reg.answer limit r = reg.answer limit (r.as a) := by
  rcases firstAccepted_cases r.path (reg.exhausted r.id r.path r.source)
    (fun a => reg.answer limit (r.as a)) alternatives with
    ⟨before, a, after, hsplit, -, -, heq⟩ | ⟨-, heq⟩
  · exact ⟨a, by simp [hsplit], (answer_union hshape).trans heq⟩
  · have hrej : (reg.exhausted r.id r.path r.source).rejectedAt r.path = true := decide_eq_true rfl
    exact absurd ((answer_union hshape).trans heq) (answer_ne_of_rejectedAt hfinal hrej)

end

/-- The probe of an inspect shape that looks into the record fails. -/
theorem probeFails_of_probe {i : Inspect} {e : TranslationError}
    (hshape : reg.shape r.id = .inspect i) (hrecord : reg.inspectable? i r.source = some record)
    (hprobe : reg.answer limit (r.probe i record) = .error e) :
    reg.ProbeFails limit r record e := by
  obtain ⟨tag, htag, arm, harm, hbuilds⟩ := exists_of_inspectable? hrecord
  obtain ⟨built, p, hbuilt, hp, hptag⟩ := exists_of_buildsFrom hbuilds
  have hmem := target_mem_samePath hshape harm
  refine ⟨r.id, i, built, p, .refl _, hshape, .step hmem hbuilt, hp, ?_, hprobe⟩
  rw [htag, hptag]

/-- A failure that is not a rejection at the path itself is that of a product whose pattern
admits the record, or that of a probe. -/
theorem reads_or_probeFails : ∀ (r : Request) (e : TranslationError),
    r.source = some (.obj record) → reg.answer limit r = .error e → e.rejectedAt r.path = false →
      reg.Reads r.id record ∨ reg.ProbeFails limit r record e := by
  -- By induction on what a request leads to, at the same source value only: a failure of an
  -- item or a field is final for the product or the probe around it.
  refine request_induction reg limit ?_
  intro r ih e hsource he hfinal
  have hnot : e.rejectedAt r.path ≠ true := by simp [hfinal]
  have hanswer := final_of_eq_error he hfinal
  have hstep : ∀ {next : TypeId}, next ∈ (reg.shape r.id).samePath →
      reg.Reads next record ∨ reg.ProbeFails limit (r.as next) record e →
      reg.Reads r.id record ∨ reg.ProbeFails limit r record e := by
    intro next hnext h
    refine h.imp (Reads.step hnext) ?_
    rintro ⟨last, i, built, p, hlast, hi⟩
    exact ⟨last, i, built, p, .step hnext hlast, hi⟩
  cases hshape : reg.shape r.id with
  | primitive kind =>
    rw [answer_primitive hshape] at he
    exact absurd (rejectedAt_of_translatePrimitive_eq_error he) hnot
  | nameSet =>
    rw [answer_nameSet hshape, hsource] at he
    cases he
    exact absurd rejectedAt_mismatch hnot
  | array item =>
    rw [answer_array hshape, hsource] at he
    cases he
    exact absurd rejectedAt_mismatch hnot
  | nullable inner =>
    have hmem : inner ∈ (reg.shape r.id).samePath := by simp [hshape, Shape.samePath]
    rcases answer_of_nullable_final hanswer hshape with ⟨-, hnull⟩ | heq
    · cases he.symm.trans hnull
    · exact hstep hmem (ih _ (.samePath hmem) e hsource (heq.symm.trans he) hfinal)
  | union alternatives =>
    obtain ⟨a, ha, heq⟩ := exists_of_union_final hanswer hshape
    have hmem : a ∈ (reg.shape r.id).samePath := by simpa [hshape, Shape.samePath] using ha
    exact hstep hmem (ih _ (.samePath hmem) e hsource (heq.symm.trans he) hfinal)
  | product p =>
    obtain ⟨found, hfound, hadmits⟩ := admits_of_product_final hanswer hshape
    rw [hsource] at hfound
    cases hfound
    exact .inl ⟨r.id, p, .refl _, hshape, hadmits⟩
  | inspect i =>
    rw [answer_inspect hshape] at he
    split at he
    · cases he
      exact absurd rejectedAt_mismatch hnot
    · next found hfound =>
      have heq := eq_of_inspectable? hfound
      rw [hsource] at heq
      cases heq
      split at he
      · next e' hprobe =>
        cases he
        exact .inr (probeFails_of_probe hshape hfound hprobe)
      · split at he
        · cases he
          exact absurd rejectedAt_mismatch hnot
        · next arm harm =>
          have hmem : arm.target ∈ (reg.shape r.id).samePath := by
            rw [hshape]
            exact List.mem_map_of_mem (List.mem_of_find?_eq_some harm)
          exact hstep hmem (ih _ (.target hmem) e hsource he hfinal)

/-- A final failure of a union in a record that no pattern at the same place admits is that of a
probe, which is what this adds to `not_reads_iff_refuses`. An alternative that no other one competes
with, neither by its patterns nor by its probes, is the one whose failure the union reports. -/
theorem commit {alternatives : List TypeId} (hshape : reg.shape r.id = .union alternatives)
    (hsource : r.source = some (.obj record)) :
    (∀ e, reg.answer limit r = .error e → e.rejectedAt r.path = false →
      (¬ reg.Reads r.id record ↔
        reg.ProbeFails limit r record e ∧ reg.Refuses r.id record)) ∧
    ∀ a ∈ alternatives,
      (∀ b ∈ alternatives, b ≠ a →
        ¬ reg.Reads b record ∧ ∀ e, ¬ reg.ProbeFails limit (r.as b) record e) →
      ∀ e, reg.answer limit r = .error e → ∃ e', reg.answer limit (r.as a) = .error e' ∧
        (e' = e ∨ e'.rejectedAt r.path = true ∧ e = reg.exhausted r.id r.path r.source) := by
  constructor
  · intro e he hfinal
    constructor
    · intro hnot
      have hprobe := (reads_or_probeFails r e hsource he hfinal).resolve_left hnot
      exact ⟨hprobe, not_reads_iff_refuses.mp hnot⟩
    · exact fun h => not_reads_iff_refuses.mpr h.2
  · intro a ha hothers e he
    rw [answer_union hshape] at he
    rcases firstAccepted_cases r.path (reg.exhausted r.id r.path r.source)
      (fun a => reg.answer limit (r.as a)) alternatives with
      ⟨before, b, after, hsplit, -, hfinal, heq⟩ | ⟨hall, heq⟩
    · rw [heq] at he
      by_cases hb : b = a
      · exact ⟨e, hb ▸ he, .inl rfl⟩
      · obtain ⟨hreads, hprobe⟩ := hothers b (by simp [hsplit]) hb
        rcases reads_or_probeFails (r.as b) e hsource he (hfinal e he) with hr | hp
        · exact absurd hr hreads
        · exact absurd hp (hprobe e)
    · rw [heq] at he
      cases he
      obtain ⟨e', he', hrej⟩ := hall a ha
      exact ⟨e', he', .inr ⟨hrej, rfl⟩⟩

/-! ### Two products with one tag -/

/-- A union of an inspect shape and a product, both for records with one tag. -/
def twoOfOneTag : Builder := { declarations := [
  { name := "string", body := some (.primitive .string) },
  { name := "any", body := some (.primitive .any) },
  { name := "First", body := some (.product {
      source := { tag := "T", literals := [("kind", .num (.int 1))] }
      fields := [.required "value" ⟨0⟩] }) },
  { name := "Choice", body := some (.inspect {
      field := "value", probe := ⟨0⟩, arms := [⟨⟨0⟩, ⟨2⟩⟩] }) },
  { name := "Second", body := some (.product {
      source := { tag := "T", literals := [("kind", .num (.int 2))] }
      fields := [.required "value" ⟨1⟩] }) },
  { name := "Either", body := some (.union [⟨3⟩, ⟨4⟩]) }] }

/-- A record with the tag, of some kind, with a number for its value. -/
def ofKind (kind : Int) : Json.Record :=
  [("type", .str "T"), ("kind", .num (.int kind)), ("value", .num (.int 5))]

/-- The request for a record of some kind. -/
def requestOfKind (id : TypeId) (kind : Int) : Request :=
  ⟨id, some (.obj (ofKind kind)), .root, none, 0⟩

/-- The failure of the probe. -/
def failedProbe (reg : Registry) : TranslationError :=
  reg.mismatch ⟨0⟩ (Path.root.field "value") (some (.num (.int 5)))

section

variable (hb : twoOfOneTag.freeze = .ok reg)
include hb

/-- Whatever the kind of the record, the union fails on the probe. -/
theorem answer_twoOfOneTag (kind : Int) :
    reg.answer limit (requestOfKind ⟨5⟩ kind) = .error reg.failedProbe := by
  have hstring : reg.shape ⟨0⟩ = .primitive .string := (Builder.shape_of_freeze hb ⟨0⟩).trans rfl
  have hfirst : reg.shape ⟨2⟩ = .product {
      source := { tag := "T", literals := [("kind", .num (.int 1))] }
      fields := [.required "value" ⟨0⟩] } := (Builder.shape_of_freeze hb ⟨2⟩).trans rfl
  have hchoice : reg.shape ⟨3⟩ = .inspect {
      field := "value", probe := ⟨0⟩, arms := [⟨⟨0⟩, ⟨2⟩⟩] } :=
    (Builder.shape_of_freeze hb ⟨3⟩).trans rfl
  have heither : reg.shape ⟨5⟩ = .union [⟨3⟩, ⟨4⟩] := (Builder.shape_of_freeze hb ⟨5⟩).trans rfl
  have hbuilds : reg.buildsFrom "T" ⟨2⟩ = true := by
    rw [buildsFrom_eq, hfirst]
    rfl
  have hlook : reg.inspectable? { field := "value", probe := ⟨0⟩, arms := [⟨⟨0⟩, ⟨2⟩⟩] }
      (requestOfKind ⟨3⟩ kind).source = some (ofKind kind) := by
    have htag : Json.Record.tag? (ofKind kind) = some "T" := rfl
    simp [requestOfKind, inspectable?, htag, hbuilds]
  have hprobe : reg.answer limit ((requestOfKind ⟨3⟩ kind).probe
      { field := "value", probe := ⟨0⟩, arms := [⟨⟨0⟩, ⟨2⟩⟩] } (ofKind kind)) =
        .error reg.failedProbe := by
    rw [answer_primitive hstring]
    rfl
  have hinspect : reg.answer limit ((requestOfKind ⟨5⟩ kind).as ⟨3⟩) =
      .error reg.failedProbe := by
    show reg.answer limit (requestOfKind ⟨3⟩ kind) = _
    rw [answer_inspect hchoice, hlook]
    dsimp only
    rw [hprobe]
  rw [answer_union heither, firstAccepted, hinspect]
  rfl

end

theorem below_failedProbe : reg.failedProbe.Below .root :=
  ⟨Path.root.field "value", .inr ⟨_, rfl, rfl⟩, by decide, by decide⟩

/-- Whether no product at the same place admits the record, as far as so many steps tell. -/
def refusesWithin (reg : Registry) (steps : Nat) (id : TypeId) (record : Json.Record) : Bool :=
  reg.samePathSatisfy (fun last =>
    match (reg.shape last).asProduct? with
    | some p => record.tag? ≠ some p.source.tag || (firstUnmet? record p.source.literals).isSome
    | none => true) steps id

theorem not_reads_of_refusesWithin {steps : Nat} {id : TypeId}
    (h : reg.refusesWithin steps id record = true) : ¬ reg.Reads id record := by
  rintro ⟨last, p, hlast, hp, htag, hall⟩
  have hcheck := of_samePathSatisfy h hlast
  simp only [hp, Shape.asProduct?, firstUnmet?_eq_none_iff.mpr hall, htag] at hcheck
  simp at hcheck

/-- The example can be frozen. No pattern admits a record of kind 3, and only that of the
second product one of kind 2, which becomes a node there. -/
theorem exists_twoOfOneTag : ∃ reg, twoOfOneTag.freeze = .ok reg ∧
    ¬ reg.Reads ⟨5⟩ (ofKind 3) ∧ ¬ reg.Reads ⟨3⟩ (ofKind 2) ∧ reg.Reads ⟨4⟩ (ofKind 2) ∧
    ∃ v, reg.answer 1 (requestOfKind ⟨4⟩ 2) = .ok v := by
  obtain ⟨reg, hb, hcheck⟩ : ∃ reg, twoOfOneTag.freeze = .ok reg ∧
      (reg.refusesWithin 4 ⟨5⟩ (ofKind 3) && reg.refusesWithin 4 ⟨3⟩ (ofKind 2) &&
        reg.translatesWithin 1 3 ⟨4⟩ (.obj (ofKind 2)) fun _ => true) = true :=
    exists_of_check (by decide +kernel)
  simp only [Bool.and_eq_true] at hcheck
  obtain ⟨⟨hthree, htwo⟩, hv⟩ := hcheck
  obtain ⟨v, hv⟩ := exists_answer_of_translatesWithin hv
  have hsecond := (Builder.shape_of_freeze hb ⟨4⟩).trans rfl
  refine ⟨reg, hb, not_reads_of_refusesWithin hthree, not_reads_of_refusesWithin htwo,
    ⟨⟨4⟩, _, .refl _, hsecond, rfl, ?_⟩, v, hv⟩
  exact firstUnmet?_eq_none_iff.mp rfl

/-- In a record of kind 3 the failure of the probe is final although no pattern admits the
record. -/
theorem commit_kind_three : ∃ reg, twoOfOneTag.freeze = .ok reg ∧
    reg.answer 1 (requestOfKind ⟨5⟩ 3) = .error reg.failedProbe ∧
    reg.ProbeFails 1 (requestOfKind ⟨5⟩ 3) (ofKind 3) reg.failedProbe := by
  obtain ⟨reg, hb, hnot, -⟩ := exists_twoOfOneTag
  have heither : reg.shape ⟨5⟩ = .union [⟨3⟩, ⟨4⟩] := (Builder.shape_of_freeze hb ⟨5⟩).trans rfl
  have he : reg.answer 1 (requestOfKind ⟨5⟩ 3) = _ := answer_twoOfOneTag hb 3
  have hbelow : reg.failedProbe.Below .root := below_failedProbe
  exact ⟨reg, hb, he, (((commit heither rfl).1 _ he hbelow.rejectedAt_eq_false).mp hnot).1⟩

/-- A failure below a union may come from a record that no pattern admits, and a record
that only one alternative admits may be lost to the probe of another one. -/
theorem final_without_match :
    (¬ ∀ (b : Builder) (reg : Registry) (limit : Nat) (r : Request) (alternatives : List TypeId)
      (record : Json.Record) (e : TranslationError), b.freeze = .ok reg →
      reg.shape r.id = .union alternatives → r.source = some (.obj record) →
      reg.answer limit r = .error e → e.Below r.path → reg.Reads r.id record) ∧
    ¬ ∀ (b : Builder) (reg : Registry) (limit : Nat) (r : Request) (alternatives : List TypeId)
      (record : Json.Record) (a : TypeId) (v : Value), b.freeze = .ok reg →
      reg.shape r.id = .union alternatives → r.source = some (.obj record) → a ∈ alternatives →
      reg.Reads a record → (∀ other ∈ alternatives, other ≠ a → ¬ reg.Reads other record) →
      reg.answer limit (r.as a) = .ok v → ∃ w, reg.answer limit r = .ok w := by
  obtain ⟨reg, hb, hthree, htwo, hreads, v, hv⟩ := exists_twoOfOneTag
  have heither : reg.shape ⟨5⟩ = .union [⟨3⟩, ⟨4⟩] := (Builder.shape_of_freeze hb ⟨5⟩).trans rfl
  constructor
  · intro h
    exact hthree (h twoOfOneTag reg 1 (requestOfKind ⟨5⟩ 3) _ _ _ hb heither rfl
      (answer_twoOfOneTag hb 3) below_failedProbe)
  · intro h
    have hothers : ∀ other ∈ [(⟨3⟩ : TypeId), ⟨4⟩], other ≠ ⟨4⟩ → ¬ reg.Reads other (ofKind 2) := by
      intro other hmem hne
      rcases List.mem_pair.mp hmem with rfl | rfl
      · exact htwo
      · exact absurd rfl hne
    obtain ⟨w, hw⟩ := h twoOfOneTag reg 1 (requestOfKind ⟨5⟩ 2) _ _ ⟨4⟩ v hb heither rfl
      (by simp) hreads hothers hv
    rw [answer_twoOfOneTag hb 2] at hw
    cases hw

end Registry

end TypedTree
