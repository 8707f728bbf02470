/-
Translation does not look at metadata.

Main statements:

* `Registry.Overlooks` — a registry asks for no metadata, in source patterns, fields or rules, and
  carries along no source but where it is meant to;
* `Registry.Overlooks.answer_matches` — then requests for sources that are the same when bare are
  answered by values that are the same when bare, or fail alike;
* `Registry.overlooks_of_overlooksWithin` — a check that can be run.

Design notes: where a source is carried along the two requests are the same, so only types that
carry nothing are compared by induction.
-/
import TypedTree.Proofs.Translation.Leaves
import TypedTree.Proofs.Translation.Matching

namespace TypedTree

/-- What stands ready, when bare. -/
def Preset.bare (preset : Preset) : Preset := { preset with value := preset.value.bare }

/-- The same request for another source, with something else that stands ready. -/
def Request.reading (r : Request) (source : Option Json) (preset : Option Preset) : Request :=
  { r with source, preset }

namespace Request

variable (r : Request) (source : Option Json) (preset : Option Preset)

@[simp] theorem reading_id : (r.reading source preset).id = r.id := rfl

@[simp] theorem reading_source : (r.reading source preset).source = source := rfl

@[simp] theorem reading_path : (r.reading source preset).path = r.path := rfl

@[simp] theorem reading_depth : (r.reading source preset).depth = r.depth := rfl

theorem reading_as (id : TypeId) :
    (r.reading source preset).as id = (r.as id).reading source preset := rfl

theorem reading_probe (i : Inspect) (record : Json.Record) :
    (r.reading source preset).probe i record = r.probe i record := rfl

theorem reading_handing (id : TypeId) (ready : Preset) :
    (r.reading source preset).handing id ready = (r.handing id ready).reading source (some ready) :=
  rfl

end Request

namespace Registry

variable {reg : Registry} {limit : Nat} {r : Request} {carried : String → String → Bool}

/-! ### What a registry overlooks -/

/-- No type that a value may hold outside of nodes carries its source along. -/
def Selective (reg : Registry) (id : TypeId) : Prop :=
  ∀ last, reg.Yields id last → reg.shape last ≠ .primitive .any

theorem Selective.of_contents {id next : TypeId} (h : reg.Selective id)
    (hnext : next ∈ (reg.shape id).contents) : reg.Selective next :=
  fun last hlast => h last (.step hnext hlast)

theorem Selective.of_samePath {id next : TypeId} (h : reg.Selective id)
    (hnext : next ∈ (reg.shape id).samePath) : reg.Selective next :=
  h.of_contents (Shape.mem_contents_of_mem_samePath hnext)

/-- What is read under a key of a record with the given tag is no metadata, and it is not carried
along unless it is meant to. -/
def ReadsAround (reg : Registry) (carried : String → String → Bool) (tag : String)
    (type : TypeId) : FieldSource → Prop
  | .key key => key ∉ Metadata.keys ∧ (carried tag key = false → reg.Selective type)
  | .extract (.rest key) => key ∉ Metadata.keys ∧ carried tag key = false ∧ reg.Selective type
  | .extract (.custom _ _) => False

/-- A registry asks for no metadata: source patterns ask for plain values under other keys, fields
and probes read around it, and rules overlook it. -/
structure Overlooks (reg : Registry) (carried : String → String → Bool) : Prop where
  literal : ∀ {id p entry}, reg.shape id = .product p → entry ∈ p.source.literals →
    entry.1 ∉ Metadata.keys ∧ carried p.source.tag entry.1 = false ∧ entry.2.isScalar = true
  field : ∀ {id p field}, reg.shape id = .product p → field ∈ p.fields →
    field.isComputed = false → reg.ReadsAround carried p.source.tag field.type field.source
  rule : ∀ {id p field rule}, reg.shape id = .product p → field ∈ p.fields →
    field.rule? = some rule → rule.Overlooks
  probe : ∀ {id i}, reg.shape id = .inspect i → i.field ∉ Metadata.keys ∧ reg.Selective i.probe ∧
    ∀ last p, reg.SamePath id last → reg.shape last = .product p →
      carried p.source.tag i.field = false

/-- What a field reads is the same as it is, or when bare. -/
theorem sourceIn_eq_or_bare {tag : String} {field : Field} {record record' : Json.Record}
    (hreads : reg.ReadsAround carried tag field.type field.source)
    (hrecord : SameRecord carried tag record record') :
    field.sourceIn record = field.sourceIn record' ∨
      (field.sourceIn record).map (Json.bare carried) =
        (field.sourceIn record').map (Json.bare carried) ∧ reg.Selective field.type := by
  have htag : ∀ key, (Json.Record.tag? record).any (carried · key) = carried tag key := by
    intro key
    rw [hrecord.tag, Option.any_some]
  rw [Field.sourceIn, Field.sourceIn]
  generalize field.source = source at hreads
  cases source with
  | key key =>
    obtain ⟨hkey, hselective⟩ := hreads
    cases hcarried : carried tag key with
    | true =>
      exact .inl (Json.Record.get?_eq_of_bare hrecord.bare hkey ((htag key).trans hcarried))
    | false =>
      exact .inr ⟨Json.Record.map_bare_get?_eq hrecord.bare hkey ((htag key).trans hcarried),
        hselective hcarried⟩
  | extract extraction =>
    cases extraction with
    | rest key =>
      obtain ⟨hkey, hcarried, hselective⟩ := hreads
      have hget := Json.Record.map_bare_get?_eq hrecord.bare hkey ((htag key).trans hcarried)
      exact .inr ⟨congrArg some (bare_restUnder_eq hget), hselective⟩
    | custom keys extract => exact hreads.elim

/-! ### Answers -/

section

variable {source : Option Json} {preset : Option Preset}
  (hsource : r.source.map (Json.bare carried) = source.map (Json.bare carried))
include hsource

theorem answer_array_matches {item : TypeId} (hshape : reg.shape r.id = .array item)
    (ih : ∀ {items : List Json} {value value' : Json} {position : Nat},
      r.source = some (.arr items) → (value, position) ∈ (stripRest items).zipIdx →
      value.bare carried = value'.bare carried →
      Matches SameBare (reg.answer limit (r.item item value position))
        (reg.answer limit (r.item item value' position))) :
    Matches SameBare (reg.answer limit r) (reg.answer limit (r.reading source preset)) := by
  rcases array_or_not hsource with ⟨items, items', heq, rfl, hitems⟩ | ⟨hnot, hnot'⟩
  · have hstripped :
        (stripRest items).map (Json.bare carried) = (stripRest items').map (Json.bare carried) := by
      rw [← stripRest_map_bare, hitems, stripRest_map_bare]
    have hanswers : List.Forall₂ (fun x x' => Matches SameBare
        (reg.answer limit (r.item item x.1 x.2)) (reg.answer limit (r.item item x'.1 x'.2)))
        (stripRest items).zipIdx (stripRest items').zipIdx := by
      refine forall₂_imp_of_mem_left ?_ (forall₂_zipIdx_of_map_eq hstripped)
      rintro ⟨value, position⟩ ⟨value', position'⟩ hmem ⟨hbare, rfl⟩
      exact ih heq hmem hbare
    rw [answer_array hshape, heq,
      answer_array (r := r.reading (some (.arr items')) preset) hshape]
    refine (Matches.mapM hanswers).bind fun hvalues => .ok ?_
    rw [SameBare, Value.bare, Value.bare, Value.bareItems_eq_map, Value.bareItems_eq_map,
      forall₂_iff_map_eq_map.mp hvalues]
  · rw [answer_array_of_not_array hshape hnot,
      answer_array_of_not_array (r := r.reading source preset) hshape hnot']
    exact .rejected rfl rfl rfl

theorem answer_nullable_matches {inner : TypeId} (hshape : reg.shape r.id = .nullable inner)
    (hinner : Matches SameBare (reg.answer limit (r.as inner))
      (reg.answer limit ((r.as inner).reading source preset))) :
    Matches SameBare (reg.answer limit r) (reg.answer limit (r.reading source preset)) := by
  rw [answer_nullable hshape, answer_nullable (r := r.reading source preset) hshape,
    Json.all_isNull_eq_of_bare hsource, Request.reading_id, Request.reading_source,
    Request.reading_path, Request.reading_as]
  by_cases hnull : source.all Json.isNull = true
  · rw [if_pos hnull, if_pos hnull]
    exact .ok rfl
  · rw [if_neg hnull, if_neg hnull]
    generalize reg.answer limit (r.as inner) = a,
      reg.answer limit ((r.as inner).reading source preset) = b at hinner
    cases a with
    | ok v =>
      cases hinner with
      | ok related => exact .ok related
    | error e =>
      cases b with
      | ok w => cases hinner
      | error e' =>
        dsimp only
        rw [hinner.rejectedAt_eq]
        split
        · exact .rejected rfl rfl rfl
        · exact hinner

end

namespace Overlooks

variable (h : reg.Overlooks carried)
include h

section

variable {p : Product} {field : Field} {record record' : Json.Record}
  (hshape : reg.shape r.id = .product p) (hmem : field ∈ p.fields)
  (hcomp : field.isComputed = false) (hrecord : SameRecord carried p.source.tag record record')
  (ih : ∀ {source source' : Option Json} {path : Path},
    source.map (Json.bare carried) = source'.map (Json.bare carried) →
    reg.Selective field.type → Matches SameBare (reg.answer limit (r.part field.type source path))
      (reg.answer limit (r.part field.type source' path)))
include hshape hmem hcomp hrecord ih

/-- Where nothing stands ready, fields are answered alike if what they read is. -/
theorem answerField_withoutPreset_matches :
    Matches SameBare (reg.answerField limit r.withoutPreset record field)
      (reg.answerField limit r.withoutPreset record' field) := by
  have hreads := sourceIn_eq_or_bare (h.field hshape hmem hcomp) hrecord
  have hnull : (field.sourceIn record).all Json.isNull =
      (field.sourceIn record').all Json.isNull := by
    rcases hreads with heq | ⟨hbare, -⟩
    · rw [heq]
    · exact Json.all_isNull_eq_of_bare hbare
  -- The default is taken for both records or for none.
  rcases answerField_cases (r := r.withoutPreset) rfl record field with
    ⟨d, hd, habsent, heq⟩ | ⟨hpresent, heq⟩ <;>
  rcases answerField_cases (r := r.withoutPreset) rfl record' field with
    ⟨d', hd', habsent', heq'⟩ | ⟨hpresent', heq'⟩
  · rw [hd] at hd'
    cases hd'
    rw [heq, heq']
    exact .ok rfl
  · rw [hnull, hpresent' d hd] at habsent
    cases habsent
  · rw [← hnull, hpresent d' hd'] at habsent'
    cases habsent'
  · rw [heq, heq']
    rcases hreads with hsame | ⟨hbare, hselective⟩
    · rw [hsame]
      exact Matches.refl SameBare.refl _
    · exact ih hbare hselective

/-- So are they if what stands ready is the same when bare. -/
theorem answerField_matches {source : Option Json} {preset : Option Preset}
    (hpreset : r.preset.map Preset.bare = preset.map Preset.bare) :
    Matches SameBare (reg.answerField limit r record field)
      (reg.answerField limit (r.reading source preset) record' field) := by
  by_cases hready : ∃ ready, r.preset = some ready ∧ field.source = .key ready.key
  · obtain ⟨ready, hr, hkey⟩ := hready
    rw [hr, Option.map_some, eq_comm, Option.map_eq_some_iff] at hpreset
    obtain ⟨ready', rfl, hbare⟩ := hpreset
    obtain ⟨hkeys, hvalues⟩ := Preset.mk.inj hbare
    rw [answerField_of_preset hr hkey,
      answerField_of_preset (r := r.reading source (some ready')) rfl (hkey.trans (by rw [hkeys])),
      hkeys]
    exact takePreset_matches hvalues.symm
  · have hready' : ∀ ready', preset = some ready' → field.source ≠ .key ready'.key := by
      rintro ready' rfl hkey'
      obtain ⟨ready, hr, hbare⟩ := Option.map_eq_some_iff.mp hpreset
      obtain ⟨hkeys, -⟩ := Preset.mk.inj hbare
      exact hready ⟨ready, hr, hkey'.trans (by rw [hkeys])⟩
    rw [answerField_without_preset fun ready hr hkey => hready ⟨ready, hr, hkey⟩,
      answerField_without_preset (r := r.reading source preset) hready']
    exact h.answerField_withoutPreset_matches hshape hmem hcomp hrecord ih

end

section

variable {source : Option Json} {preset : Option Preset}
  (hsource : r.source.map (Json.bare carried) = source.map (Json.bare carried))
include hsource

theorem answer_product_matches {p : Product} (hshape : reg.shape r.id = .product p)
    (hpreset : r.preset.map Preset.bare = preset.map Preset.bare)
    (ih : r.depth < limit → ∀ {id : TypeId} {source source' : Option Json} {path : Path},
      source.map (Json.bare carried) = source'.map (Json.bare carried) → reg.Selective id →
      Matches SameBare (reg.answer limit (r.part id source path))
        (reg.answer limit (r.part id source' path))) :
    Matches SameBare (reg.answer limit r) (reg.answer limit (r.reading source preset)) := by
  have hrecords : Matches (SameRecord carried p.source.tag)
      (reg.matchRecord r.id p.source r.source r.path)
      (reg.matchRecord r.id p.source source r.path) :=
    matchRecord_matches hsource fun entry => h.literal hshape
  rw [answer_product hshape, answer_product (r := r.reading source preset) hshape,
    Request.reading_id, Request.reading_source, Request.reading_path, Request.reading_depth]
  generalize reg.matchRecord r.id p.source r.source r.path = a,
    reg.matchRecord r.id p.source source r.path = b at hrecords
  -- The pattern comes first. Only where both records meet it are there fields to compare.
  cases hrecords with
  | rejected kind expected path => exact .rejected kind expected path
  | error e => exact .error e
  | @ok record record' hrecord =>
    dsimp only
    by_cases hwithin : r.depth < limit
    · rw [if_pos hwithin, if_pos hwithin]
      have hslots : ∀ field ∈ p.fields, Matches
          (fun slot slot' : Option Value => slot.map Value.bare = slot'.map Value.bare)
          (if field.isComputed then .ok none else some <$> reg.answerField limit r record field)
          (if field.isComputed then .ok none
            else some <$> reg.answerField limit (r.reading source preset) record' field) := by
        intro field hmem
        split
        · exact .ok rfl
        · next hcomp =>
          have hcomp' : field.isComputed = false := by simpa using hcomp
          refine (h.answerField_matches hshape hmem hcomp' hrecord (ih hwithin) hpreset).map ?_
          exact fun hbare => congrArg some hbare
      refine (Matches.mapM (List.forall₂_same.mpr hslots)).bind fun hvalues => .ok ?_
      have hfields := Product.bareFields_complete (reg.plan r.id)
        (fun field hmem rule => h.rule hshape hmem) (forall₂_iff_map_eq_map.mp hvalues)
      exact congrArg (Value.node r.id (reg.name r.id) · none) hfields
    · rw [if_neg hwithin, if_neg hwithin]
      exact .error _

theorem answer_inspect_matches {i : Inspect} (hshape : reg.shape r.id = .inspect i)
    (hprobes : ∀ {record : Json.Record} {probed : Option Json},
      reg.inspectable? i r.source = some record →
      (record.get? i.field).map (Json.bare carried) = probed.map (Json.bare carried) →
      Matches SameBare (reg.answer limit (r.probe i record))
        (reg.answer limit ((r.probe i record).reading probed none)))
    (htargets : ∀ {arm : Arm} {ready ready' : Preset}, arm ∈ i.arms → ready.bare = ready'.bare →
      Matches SameBare (reg.answer limit (r.handing arm.target ready))
        (reg.answer limit ((r.handing arm.target ready).reading source (some ready')))) :
    Matches SameBare (reg.answer limit r) (reg.answer limit (r.reading source preset)) := by
  rw [answer_inspect hshape, answer_inspect (r := r.reading source preset) hshape]
  simp only [Request.reading_id, Request.reading_source, Request.reading_path,
    Request.reading_probe, Request.reading_handing]
  cases hfound : reg.inspectable? i r.source with
  | none =>
    rw [inspectable?_eq_none_of_bare hsource hfound]
    exact .rejected rfl rfl rfl
  | some record =>
    obtain ⟨tag, record', hfound', hrecord, arm, harm, hbuilds⟩ :=
      exists_inspectable?_of_bare hsource hfound
    obtain ⟨last, p, hlast, hp, htag⟩ := exists_of_buildsFrom hbuilds
    obtain ⟨hkey, -, hcarried⟩ := h.probe hshape
    have hprobe : Matches SameBare (reg.answer limit (r.probe i record))
        (reg.answer limit (r.probe i record')) := by
      refine hprobes hfound (Json.Record.map_bare_get?_eq hrecord.bare hkey ?_)
      rw [hrecord.tag, Option.any_some, ← htag]
      exact hcarried last p (.step (target_mem_samePath hshape harm) hlast) hp
    rw [hfound']
    dsimp only
    generalize reg.answer limit (r.probe i record) = a,
      reg.answer limit (r.probe i record') = b at hprobe
    cases hprobe with
    | rejected kind expected path => exact .rejected kind expected path
    | error e => exact .error e
    | @ok probed probed' hprobed =>
      -- The probed values may differ in their metadata; no arm sees that, so the same one is
      -- chosen.
      have hchoice : (fun arm : Arm => reg.isInstance arm.test probed) =
          fun arm => reg.isInstance arm.test probed' :=
        funext fun arm => isInstance_eq_of_bare hprobed
      dsimp only
      rw [hchoice]
      cases hfind : i.arms.find? fun arm => reg.isInstance arm.test probed' with
      | none => exact .rejected rfl rfl rfl
      | some arm =>
        exact htargets (List.mem_of_find?_eq_some hfind) (congrArg (Preset.mk i.field) hprobed)

end

/-- Requests for sources that are the same when bare are answered by values that are the same when
bare, or fail alike, unless the type carries its source along. -/
theorem answer_matches : ∀ (r : Request) {source : Option Json} {preset : Option Preset},
    r.source.map (Json.bare carried) = source.map (Json.bare carried) →
    r.preset.map Preset.bare = preset.map Preset.bare → reg.Selective r.id →
    Matches SameBare (reg.answer limit r) (reg.answer limit (r.reading source preset)) := by
  -- By induction on what a request leads to. The presets vary with the sources, since a probed
  -- value is handed on that is the same as the other one only when bare.
  refine request_induction reg limit ?_
  intro r ih source preset hsource hpreset hselective
  have hnext : ∀ {next}, next ∈ (reg.shape r.id).contents → reg.Selective next :=
    fun hmem => hselective.of_contents hmem
  cases hshape : reg.shape r.id with
  | primitive kind =>
    have hkind : kind ≠ .any := by
      rintro rfl
      exact hselective r.id (.refl r.id) hshape
    rw [answer_primitive hshape, answer_primitive (r := r.reading source preset) hshape]
    exact translatePrimitive_matches hsource hkind
  | nameSet =>
    rw [answer_nameSet hshape, answer_nameSet (r := r.reading source preset) hshape]
    exact translateNames_matches hsource
  | array item =>
    rw [hshape] at hnext
    refine answer_array_matches hsource hshape fun hitems hmem hbare => ?_
    exact ih _ (.item hshape hitems hmem) (congrArg some hbare) rfl (hnext List.mem_cons_self)
  | nullable inner =>
    have hmem : inner ∈ (reg.shape r.id).samePath := hshape ▸ List.mem_cons_self
    exact answer_nullable_matches hsource hshape
      (ih _ (.samePath hmem) hsource hpreset (hselective.of_samePath hmem))
  | union alternatives =>
    rw [answer_union hshape, answer_union (r := r.reading source preset) hshape]
    have hexhausted : Matches SameBare (.error (reg.exhausted r.id r.path r.source))
        (.error (reg.exhausted r.id r.path source)) := .rejected rfl rfl rfl
    refine Matches.firstAccepted hexhausted fun a ha => ?_
    have hmem : a ∈ (reg.shape r.id).samePath := hshape ▸ ha
    exact ih _ (.samePath hmem) hsource hpreset (hselective.of_samePath hmem)
  | product p =>
    refine h.answer_product_matches hsource hshape hpreset fun hwithin _ _ _ _ hbare hpart => ?_
    exact ih _ (.field hwithin) hbare rfl hpart
  | inspect i =>
    obtain ⟨-, hprobe, -⟩ := h.probe hshape
    refine h.answer_inspect_matches hsource hshape (fun hrecord hbare => ?_)
      fun harm hready => ?_
    · exact ih _ (.probe hshape hrecord) hbare rfl hprobe
    · have hmem := target_mem_samePath hshape harm
      exact ih _ (.target hmem) hsource (congrArg some hready) (hselective.of_samePath hmem)

end Overlooks

/-! ### Registries that can be checked -/

/-- Whether a type carries no source along, as far as so many steps tell. -/
def selectsWithin (reg : Registry) (steps : Nat) (id : TypeId) : Bool :=
  reg.leavesSatisfy reg.isSelective steps id

theorem selective_of_selectsWithin {steps : Nat} {id : TypeId}
    (h : reg.selectsWithin steps id = true) : reg.Selective id := by
  intro last hlast hany
  have hleaf : (reg.shape last).contents = [] := by
    rw [hany]
    rfl
  have hselective := of_leavesSatisfy h hlast hleaf
  rw [isSelective, hany] at hselective
  cases hselective

/-- Whether what is read is no metadata, and not carried along unless it is meant to. -/
def readsAroundWithin (reg : Registry) (carried : String → String → Bool) (steps : Nat)
    (tag : String) (type : TypeId) : FieldSource → Bool
  | .key key =>
    key ∉ Metadata.keys && (carried tag key || reg.selectsWithin steps type)
  | .extract (.rest key) =>
    key ∉ Metadata.keys && (!carried tag key && reg.selectsWithin steps type)
  | .extract (.custom _ _) => false

theorem readsAround_of_readsAroundWithin {steps : Nat} {tag : String} {type : TypeId}
    {source : FieldSource} (h : reg.readsAroundWithin carried steps tag type source = true) :
    reg.ReadsAround carried tag type source := by
  cases source with
  | key key =>
    obtain ⟨hkey, hread⟩ := Bool.and_eq_true_iff.mp h
    refine ⟨of_decide_eq_true hkey, fun hcarried => ?_⟩
    rw [hcarried, Bool.false_or] at hread
    exact selective_of_selectsWithin hread
  | extract extraction =>
    cases extraction with
    | rest key =>
      obtain ⟨hkey, hread⟩ := Bool.and_eq_true_iff.mp h
      obtain ⟨hcarried, hselects⟩ := Bool.and_eq_true_iff.mp hread
      exact ⟨of_decide_eq_true hkey, by simpa using hcarried, selective_of_selectsWithin hselects⟩
    | custom => cases h

/-- Whether a type of nodes asks for no metadata. -/
def overlooksInProduct (reg : Registry) (carried : String → String → Bool) (steps : Nat)
    (p : Product) : Bool :=
  p.source.literals.all (fun entry =>
      entry.1 ∉ Metadata.keys && (!carried p.source.tag entry.1 && entry.2.isScalar)) &&
    p.fields.all fun field =>
      match field.rule? with
      | some rule => rule.isPlain
      | none => reg.readsAroundWithin carried steps p.source.tag field.type field.source

/-- Whether an inspect shape asks for no metadata. -/
def overlooksInInspect (reg : Registry) (carried : String → String → Bool) (steps : Nat)
    (id : TypeId) (i : Inspect) : Bool :=
  i.field ∉ Metadata.keys && (reg.selectsWithin steps i.probe &&
    reg.samePathSatisfy (fun last =>
      match (reg.shape last).asProduct? with
      | some p => !carried p.source.tag i.field
      | none => true) steps id)

/-- Whether a registry asks for no metadata, as far as so many steps tell. -/
def overlooksWithin (reg : Registry) (carried : String → String → Bool) (steps : Nat) : Bool :=
  reg.ids.all fun id =>
    match reg.shape id with
    | .product p => reg.overlooksInProduct carried steps p
    | .inspect i => reg.overlooksInInspect carried steps id i
    | _ => true

theorem overlooks_of_overlooksWithin {steps : Nat}
    (h : reg.overlooksWithin carried steps = true) : reg.Overlooks carried := by
  have hproduct : ∀ {id p}, reg.shape id = .product p →
      reg.overlooksInProduct carried steps p = true := by
    intro id p hshape
    have hid := List.all_eq_true.mp h id (mem_ids_of_shape_ne (by simp [hshape]))
    rwa [hshape] at hid
  have hinspect : ∀ {id i}, reg.shape id = .inspect i →
      reg.overlooksInInspect carried steps id i = true := by
    intro id i hshape
    have hid := List.all_eq_true.mp h id (mem_ids_of_shape_ne (by simp [hshape]))
    simpa only [hshape] using hid
  exact {
    literal := fun {id p entry} hshape hmem => by
      obtain ⟨hliterals, -⟩ := Bool.and_eq_true_iff.mp (hproduct hshape)
      simpa using List.all_eq_true.mp hliterals entry hmem
    field := fun {id p field} hshape hmem hcomp => by
      obtain ⟨-, hfields⟩ := Bool.and_eq_true_iff.mp (hproduct hshape)
      have hfield := List.all_eq_true.mp hfields field hmem
      have hrule : field.rule? = none := by simpa [Field.isComputed] using hcomp
      rw [hrule] at hfield
      exact readsAround_of_readsAroundWithin hfield
    rule := fun {id p field rule} hshape hmem hrule => by
      obtain ⟨-, hfields⟩ := Bool.and_eq_true_iff.mp (hproduct hshape)
      have hfield := List.all_eq_true.mp hfields field hmem
      rw [hrule] at hfield
      exact Computed.overlooks_of_isPlain hfield
    probe := fun {id i} hshape => by
      obtain ⟨hkey, hprobe⟩ := Bool.and_eq_true_iff.mp (hinspect hshape)
      obtain ⟨hselects, htargets⟩ := Bool.and_eq_true_iff.mp hprobe
      refine ⟨of_decide_eq_true hkey, selective_of_selectsWithin hselects, ?_⟩
      intro last p hlast hproduct
      have htarget := of_samePathSatisfy htargets hlast
      simp only [hproduct, Shape.asProduct?] at htarget
      simpa using htarget }

end Registry

end TypedTree