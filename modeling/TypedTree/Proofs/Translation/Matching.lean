/-
Results for sources that are the same when bare.

Two translations match if they give related results, or fail alike. Main statements:

* `Matches` — two computations have related results, or fail alike;
* `Product.bareFields_complete` — values that are the same when bare are completed alike;
* `Registry.isInstance_eq_of_bare` — they belong to the same types;
* `Registry.translatePrimitive_matches` and its neighbours — sources that are the same when bare
  are taken alike, part by part.

Design notes: what was found at the place of a failure may well differ, for it is described from
the source.
-/
import TypedTree.Proofs.Bare
import TypedTree.Proofs.Translation.Construction
import TypedTree.Proofs.Translation.Termination

namespace TypedTree

/-! ### Results that match -/

/-- Two computations have related results, or fail alike: with the same kind of failure, at the
same path, and with the same thing expected there. -/
inductive Matches {α β : Type} (R : α → β → Prop) :
    Except TranslationError α → Except TranslationError β → Prop
  | ok {a : α} {b : β} (related : R a b) : Matches R (.ok a) (.ok b)
  | rejected {r r' : Rejection} (kind : r.kind = r'.kind) (expected : r.expected = r'.expected)
      (path : r.path = r'.path) : Matches R (.error (.rejected r)) (.error (.rejected r'))
  | error (e : TranslationError) : Matches R (.error e) (.error e)

namespace Matches

variable {α β γ δ : Type} {R : α → β → Prop} {S : γ → δ → Prop}

theorem refl {R : α → α → Prop} (h : ∀ a, R a a) (x : Except TranslationError α) :
    Matches R x x := by
  cases x with
  | ok a => exact .ok (h a)
  | error e => exact .error e

theorem bind {x : Except TranslationError α} {y : Except TranslationError β}
    {f : α → Except TranslationError γ} {g : β → Except TranslationError δ} (h : Matches R x y)
    (hfg : ∀ {a b}, R a b → Matches S (f a) (g b)) : Matches S (x >>= f) (y >>= g) := by
  cases h with
  | ok related => exact hfg related
  | rejected kind expected path => exact .rejected kind expected path
  | error e => exact .error e

theorem map {x : Except TranslationError α} {y : Except TranslationError β} {f : α → γ}
    {g : β → δ} (h : Matches R x y) (hfg : ∀ {a b}, R a b → S (f a) (g b)) :
    Matches S (f <$> x) (g <$> y) := by
  cases h with
  | ok related => exact .ok (hfg related)
  | rejected kind expected path => exact .rejected kind expected path
  | error e => exact .error e

theorem mapM {f : α → Except TranslationError γ} {g : β → Except TranslationError δ} {l : List α}
    {m : List β} (h : List.Forall₂ (fun a b => Matches S (f a) (g b)) l m) :
    Matches (List.Forall₂ S) (l.mapM f) (m.mapM g) := by
  induction h with
  | nil => exact .ok .nil
  | cons hab _ ih =>
    rw [List.mapM_cons, List.mapM_cons]
    exact hab.bind fun hb => ih.bind fun hbs => .ok (.cons hb hbs)

theorem rejectedAt_eq {e e' : TranslationError}
    (h : Matches R (.error e : Except TranslationError α) (.error e')) (path : Path) :
    e.rejectedAt path = e'.rejectedAt path := by
  cases h with
  | rejected kind expected hpath => exact decide_eq_decide.mpr (by rw [hpath])
  | error => rfl

/-- Alternatives that match are chosen alike. -/
theorem firstAccepted {T : Value → Value → Prop} {f g : γ → Except TranslationError Value}
    {path : Path} {exhausted exhausted' : TranslationError}
    (hexhausted : Matches T (.error exhausted) (.error exhausted')) : ∀ {l : List γ},
    (∀ x ∈ l, Matches T (f x) (g x)) →
    Matches T (TypedTree.firstAccepted path exhausted f l)
      (TypedTree.firstAccepted path exhausted' g l) := by
  intro l
  induction l with
  | nil => exact fun _ => hexhausted
  | cons x l ih =>
    intro h
    obtain ⟨hx, hl⟩ := List.forall_mem_cons.mp h
    rw [TypedTree.firstAccepted, TypedTree.firstAccepted]
    generalize f x = a, g x = b at hx
    cases a with
    | ok v =>
      cases hx with
      | ok related => exact .ok related
    | error e =>
      cases b with
      | ok w => cases hx
      | error e' =>
        dsimp only
        rw [hx.rejectedAt_eq]
        split
        · exact ih hl
        · exact hx

end Matches

/-- Two values are the same when bare. -/
def SameBare (v w : Value) : Prop := v.bare = w.bare

theorem SameBare.refl (v : Value) : SameBare v v := rfl

/-- Records that are the same when bare, with the given tag. -/
structure SameRecord (carried : String → String → Bool) (tag : String)
    (record record' : Json.Record) : Prop where
  bare : (Json.obj record).bare carried = (Json.obj record').bare carried
  tag : record.tag? = some tag

/-! ### Products -/

namespace Product

variable {p : Product} {slots slots' : List (Option Value)}

theorem computeStep_eq_of_bare (step : ComputeStep)
    (hrules : ∀ field ∈ p.fields, ∀ rule, field.rule? = some rule → rule.Overlooks)
    (h : slots.map (Option.map Value.bare) = slots'.map (Option.map Value.bare)) :
    (p.computeStep slots step).map (Option.map Value.bare) =
      (p.computeStep slots' step).map (Option.map Value.bare) := by
  cases hcalled : (p.fields[step.field]?).bind Field.rule? with
  | none =>
    rw [computeStep, computeStep, hcalled]
    exact h
  | some rule =>
    obtain ⟨field, hfield, hrule⟩ := Option.bind_eq_some_iff.mp hcalled
    have hargs : ∀ slots : List (Option Value), (arguments slots step).map Value.bare =
        step.dependencies.filterMap fun dep =>
          (slots.map (Option.map Value.bare))[dep]?.getD none := by
      intro slots
      rw [arguments, List.map_filterMap]
      congr 1
      funext dep
      rw [List.getElem?_map]
      cases slots[dep]? <;> rfl
    have hsame := hrules field (List.mem_of_getElem? hfield) rule hrule _ _
      ((hargs slots).trans (h ▸ (hargs slots').symm))
    rw [computeStep_eq hfield hrule, computeStep_eq hfield hrule, List.map_set, List.map_set, h,
      Option.map_some, Option.map_some, hsame]

/-- Values that are the same when bare are completed alike. -/
theorem bareFields_complete (plan : List ComputeStep)
    (hrules : ∀ field ∈ p.fields, ∀ rule, field.rule? = some rule → rule.Overlooks)
    (h : slots.map (Option.map Value.bare) = slots'.map (Option.map Value.bare)) :
    Value.bareFields (p.complete plan slots) = Value.bareFields (p.complete plan slots') := by
  have hrun : (plan.foldl p.computeStep slots).map (Option.map Value.bare) =
      (plan.foldl p.computeStep slots').map (Option.map Value.bare) := by
    induction plan generalizing slots slots' with
    | nil => exact h
    | cons step plan ih => exact ih (computeStep_eq_of_bare step hrules h)
  have hfields : ∀ slots : List (Option Value),
      Value.bareFields (List.zipWith (fun field slot => (field.name, slot.getD .null))
        p.fields slots) =
      List.zipWith (fun field slot => (field.name, slot.getD .null)) p.fields
        (slots.map (Option.map Value.bare)) := by
    intro slots
    rw [Value.bareFields_eq_map, List.map_zipWith, List.zipWith_map_right]
    congr 1
    funext field slot
    cases slot <;> rfl
  rw [complete, complete, hfields, hfields, hrun]

end Product

namespace Registry

variable {reg : Registry} {limit : Nat} {r : Request} {carried : String → String → Bool}

/-! ### Membership -/

/-- Values that are the same when bare belong to the same types. -/
theorem isInstance_bare (x : TypeId × Value) :
    reg.isInstance x.1 x.2.bare = reg.isInstance x.1 x.2 := by
  -- By induction on what a test of membership leads to.
  have hwf := wellFounded_tests_iff.mpr (wellFounded_follows reg)
  induction x using hwf.induction with
  | _ x ih =>
    obtain ⟨id, v⟩ := x
    have hstep : ∀ next ∈ (reg.shape id).samePath,
        reg.isInstance next v.bare = reg.isInstance next v :=
      fun next hnext => ih (next, v) (.samePath hnext)
    rw [isInstance_eq, isInstance_eq]
    cases hshape : reg.shape id with
    | primitive kind =>
      cases kind <;> cases v <;> rfl
    | nameSet => cases v <;> rfl
    | product p => cases v <;> rfl
    | array item =>
      cases v with
      | list items =>
        show (Value.bareItems items).all _ = _
        rw [Value.bareItems_eq_map, List.all_map]
        exact all_congr_of_mem fun v hv => ih (item, v) (.item hshape hv)
      | null | bool | number | string | any | names | node => rfl
    | nullable inner =>
      rw [hshape] at hstep
      dsimp only
      rw [hstep inner List.mem_cons_self, Value.isNull_bare]
    | union alternatives =>
      rw [hshape] at hstep
      exact any_congr_of_mem hstep
    | inspect i =>
      rw [hshape] at hstep
      exact any_congr_of_mem fun arm harm => hstep arm.target (List.mem_map_of_mem harm)

theorem isInstance_eq_of_bare {id : TypeId} {v w : Value} (h : v.bare = w.bare) :
    reg.isInstance id v = reg.isInstance id w := by
  rw [← isInstance_bare (id, v), ← isInstance_bare (id, w), h]

/-! ### Parts of a translation -/

/-- Both sources are missing, or both are there. -/
theorem missing_or_present {source source' : Option Json}
    (h : source.map (Json.bare carried) = source'.map (Json.bare carried)) :
    source = none ∧ source' = none ∨
      ∃ a b, source = some a ∧ source' = some b ∧ a.bare carried = b.bare carried := by
  cases source with
  | none =>
    rw [Option.map_none, eq_comm, Option.map_eq_none_iff] at h
    exact .inl ⟨rfl, h⟩
  | some a =>
    rw [Option.map_some, eq_comm, Option.map_eq_some_iff] at h
    obtain ⟨b, hb, hbare⟩ := h
    exact .inr ⟨a, b, rfl, hb, hbare.symm⟩

theorem collectNames_matches {path : Path} : ∀ {items items' : List Json} {position : Nat}
    {set : NameSet}, items.map (Json.bare carried) = items'.map (Json.bare carried) →
    Matches Eq (collectNames path items position set) (collectNames path items' position set) := by
  intro items
  induction items with
  | nil =>
    intro items' position set h
    rw [List.map_nil, eq_comm, List.map_eq_nil_iff] at h
    rw [h]
    exact .ok rfl
  | cons item items ih =>
    intro items' position set h
    rw [List.map_cons, eq_comm, List.map_eq_cons_iff] at h
    obtain ⟨item', items', rfl, hitem, hitems⟩ := h
    have htext : item'.asString? = item.asString? := by
      rw [← @Json.asString?_bare carried item', hitem, Json.asString?_bare]
    rw [collectNames, collectNames, htext]
    cases item.asString? with
    | some name => exact ih hitems.symm
    | none => exact .rejected rfl rfl rfl

theorem translateNames_of_not_array {id : TypeId} {source : Option Json} {path : Path}
    (hnot : ∀ items, source ≠ some (.arr items)) :
    reg.translateNames id source path = .error (reg.mismatch id path source) := by
  rw [translateNames]
  exact fun items hitems => hnot items hitems

theorem answer_array_of_not_array {item : TypeId} (hshape : reg.shape r.id = .array item)
    (hnot : ∀ items, r.source ≠ some (.arr items)) :
    reg.answer limit r = .error (reg.mismatch r.id r.path r.source) := by
  rw [answer_array hshape]
  split
  · next items hitems => exact absurd hitems (hnot items)
  · rfl

theorem matchRecord_of_not_record {id : TypeId} {pattern : SourcePattern} {source : Option Json}
    {path : Path} (hnot : ∀ record, source ≠ some (.obj record)) :
    reg.matchRecord id pattern source path = .error (reg.mismatch id path source) := by
  rw [matchRecord]
  exact fun record hrecord => hnot record hrecord

/-- The first entry that is not met is the same for records that are the same when bare. -/
theorem firstUnmet?_eq_of_bare {record record' : Json.Record} {literals : List (String × Json)}
    (h : (Json.obj record).bare carried = (Json.obj record').bare carried)
    (hliterals : ∀ entry ∈ literals, entry.1 ∉ Metadata.keys ∧
      (Json.Record.tag? record).any (carried · entry.1) = false ∧ entry.2.isScalar = true) :
    firstUnmet? record literals = firstUnmet? record' literals := by
  induction literals with
  | nil => rfl
  | cons entry literals ih =>
    obtain ⟨key, literal⟩ := entry
    obtain ⟨⟨hkey, hbare, hliteral⟩, hrest⟩ := List.forall_mem_cons.mp hliterals
    have hget := Json.Record.map_bare_get?_eq h hkey hbare
    rw [firstUnmet?, firstUnmet?, ih hrest]
    rcases missing_or_present hget with ⟨hnone, hnone'⟩ | ⟨a, b, ha, hb, hsame⟩
    · rw [hnone, hnone']
    · rw [ha, hb]
      dsimp only
      rw [Json.same_eq_of_bare hliteral hsame]

section

variable {id : TypeId} {source source' : Option Json} {path : Path}
  (h : source.map (Json.bare carried) = source'.map (Json.bare carried))
include h

theorem translatePrimitive_matches {kind : Primitive} (hkind : kind ≠ .any) :
    Matches SameBare (reg.translatePrimitive id kind source path)
      (reg.translatePrimitive id kind source' path) := by
  rcases missing_or_present h with ⟨rfl, rfl⟩ | ⟨a, b, rfl, rfl, hbare⟩
  · exact Matches.refl SameBare.refl _
  · have heq : ∀ value : Json, reg.translatePrimitive id kind (some value) path =
        if kind.accepts value then .ok (.ofLiteral value)
        else .error (reg.mismatch id path (some value)) := by
      intro value
      cases kind with
      | any => exact absurd rfl hkind
      | string | number | boolean | null => rfl
    rw [heq, heq, Json.accepts_eq_of_bare kind hbare]
    split
    · next haccepts =>
      rw [← Json.accepts_eq_of_bare kind hbare] at haccepts
      obtain rfl := Json.eq_of_bare_of_isScalar (isScalar_of_accepts hkind haccepts) hbare
      exact .ok rfl
    · exact .rejected rfl rfl rfl

/-- Both sources are arrays, or none is. -/
theorem array_or_not : (∃ items items', source = some (.arr items) ∧
      source' = some (.arr items') ∧
      items.map (Json.bare carried) = items'.map (Json.bare carried)) ∨
    (∀ items, source ≠ some (.arr items)) ∧ ∀ items, source' ≠ some (.arr items) := by
  rcases missing_or_present h with ⟨rfl, rfl⟩ | ⟨a, b, rfl, rfl, hbare⟩
  · exact .inr ⟨nofun, nofun⟩
  · cases a with
    | arr items =>
      obtain ⟨items', rfl, hitems⟩ := Json.exists_items_of_bare hbare
      exact .inl ⟨items, items', rfl, rfl, hitems⟩
    | obj record =>
      obtain ⟨record', rfl⟩ := Json.exists_record_of_bare hbare
      exact .inr ⟨nofun, nofun⟩
    | null | bool | num | str =>
      obtain rfl := Json.eq_of_bare_of_isScalar rfl hbare
      exact .inr ⟨nofun, nofun⟩

theorem translateNames_matches :
    Matches SameBare (reg.translateNames id source path)
      (reg.translateNames id source' path) := by
  rcases array_or_not h with ⟨items, items', rfl, rfl, hitems⟩ | ⟨hnot, hnot'⟩
  · exact (collectNames_matches hitems).map fun hset => congrArg _ (congrArg Value.names hset)
  · rw [translateNames_of_not_array hnot, translateNames_of_not_array hnot']
    exact .rejected rfl rfl rfl

/-- Both sources are records, or none is. -/
theorem record_or_not : (∃ record record', source = some (.obj record) ∧
      source' = some (.obj record') ∧
      (Json.obj record).bare carried = (Json.obj record').bare carried) ∨
    (∀ record, source ≠ some (.obj record)) ∧ ∀ record, source' ≠ some (.obj record) := by
  rcases missing_or_present h with ⟨rfl, rfl⟩ | ⟨a, b, rfl, rfl, hbare⟩
  · exact .inr ⟨nofun, nofun⟩
  · cases a with
    | arr items =>
      obtain ⟨items', rfl, -⟩ := Json.exists_items_of_bare hbare
      exact .inr ⟨nofun, nofun⟩
    | obj record =>
      obtain ⟨record', rfl⟩ := Json.exists_record_of_bare hbare
      exact .inl ⟨record, record', rfl, rfl, hbare⟩
    | null | bool | num | str =>
      obtain rfl := Json.eq_of_bare_of_isScalar rfl hbare
      exact .inr ⟨nofun, nofun⟩

theorem matchRecord_matches {pattern : SourcePattern}
    (hliterals : ∀ entry ∈ pattern.literals, entry.1 ∉ Metadata.keys ∧
      carried pattern.tag entry.1 = false ∧ entry.2.isScalar = true) :
    Matches (SameRecord carried pattern.tag) (reg.matchRecord id pattern source path)
      (reg.matchRecord id pattern source' path) := by
  rcases record_or_not h with ⟨record, record', rfl, rfl, hbare⟩ | ⟨hnot, hnot'⟩
  · have htags := Json.Record.tag?_eq_of_bare hbare
    by_cases htag : Json.Record.tag? record = some pattern.tag
    · have hunmet : firstUnmet? record pattern.literals = firstUnmet? record' pattern.literals :=
        firstUnmet?_eq_of_bare hbare fun entry hentry => by
          rw [htag]
          exact hliterals entry hentry
      rw [matchRecord, matchRecord, if_pos htag, if_pos (htags ▸ htag), hunmet]
      cases firstUnmet? record' pattern.literals with
      | none => exact .ok ⟨hbare, htag⟩
      | some entry => exact .rejected rfl rfl rfl
    · rw [matchRecord, matchRecord, if_neg htag, if_neg (htags ▸ htag)]
      exact .rejected rfl rfl rfl
  · rw [matchRecord_of_not_record hnot, matchRecord_of_not_record hnot']
    exact .rejected rfl rfl rfl

/-- What an inspect shape looks into, it looks into without metadata. -/
theorem exists_inspectable?_of_bare {i : Inspect} {record : Json.Record}
    (hfound : reg.inspectable? i source = some record) :
    ∃ tag record', reg.inspectable? i source' = some record' ∧
      SameRecord carried tag record record' ∧
      ∃ arm ∈ i.arms, reg.buildsFrom tag arm.target = true := by
  obtain ⟨tag, htag, arm, harm, hbuilds⟩ := exists_of_inspectable? hfound
  obtain rfl := eq_of_inspectable? hfound
  rcases record_or_not h with ⟨_, record', heq, rfl, hbare⟩ | ⟨hnot, -⟩
  · cases heq
    have htag' : Json.Record.tag? record' = some tag :=
      (Json.Record.tag?_eq_of_bare hbare).symm.trans htag
    exact ⟨tag, record', inspectable?_eq_some rfl htag' harm hbuilds, ⟨hbare, htag⟩, arm, harm,
      hbuilds⟩
  · exact absurd rfl (hnot record)

theorem inspectable?_eq_none_of_bare {i : Inspect} (hnone : reg.inspectable? i source = none) :
    reg.inspectable? i source' = none := by
  cases hfound : reg.inspectable? i source' with
  | none => rfl
  | some record =>
    obtain ⟨tag, record', hfound', -⟩ := exists_inspectable?_of_bare h.symm hfound
    rw [hnone] at hfound'
    cases hfound'

end

theorem takePreset_matches {type : TypeId} {v w : Value} {path : Path} (h : SameBare v w) :
    Matches SameBare (reg.takePreset type v path) (reg.takePreset type w path) := by
  rw [takePreset, takePreset, isInstance_eq_of_bare h]
  split
  · exact .ok h
  · exact .rejected rfl rfl rfl

end Registry

end TypedTree
