/-
A synthesized registry accepts the trees that its grammar describes.

Main statements:

* `Registry.accepts_union` — an ordered choice accepts what some alternative accepts, as long
  as a final failure of one alternative rules out the others;
* `Grammar.accepts_of_means` — a type accepts what is valid for the descriptor it stands for;
* `Grammar.answers_of_meansNode` — the type of a name accepts the nodes of that name;
* `Grammar.accepts_iff_valid` — the same for whole sources.

Design notes: the induction is on how deep objects are nested. A product leads to sources
that are nested less deep; below that, the type of a descriptor leads to types that stand
for its parts. A final failure comes from the one product that has the tag of the record,
so no other node type could have taken the record, and kinds that take records do not stand
beside node types.
-/
import TypedTree.Proofs.Nesting
import TypedTree.Proofs.Synthesis.Resolution
import TypedTree.Proofs.Translation.Commit

namespace TypedTree

open Builder
open Descriptor (Within namesNodes itemOf? firstLink? headIsArray)

namespace Registry

variable {reg : Registry} {limit : Nat} {r : Request}

/-! ### Acceptance by shape -/

/-- A request is answered with a value. -/
def Accepts (reg : Registry) (limit : Nat) (r : Request) : Prop :=
  ∃ v, reg.answer limit r = .ok v

theorem accepts_primitive {kind : Primitive} (hshape : reg.shape r.id = .primitive kind) :
    reg.Accepts limit r ↔ kind.acceptsSource r.source = true := by
  rw [Accepts, answer_primitive hshape]
  cases hsource : r.source with
  | none => cases kind <;> simp [translatePrimitive, Primitive.acceptsSource]
  | some v =>
    cases hv : kind.accepts v <;>
      cases kind <;> simp_all [translatePrimitive, Primitive.acceptsSource, Primitive.accepts]

/-- Lists are accepted if all items are. -/
theorem accepts_array {item : TypeId} (valid : Json → Prop) (hshape : reg.shape r.id = .array item)
    (hitem : ∀ items, r.source = some (.arr items) → ∀ v ∈ stripRest items,
      ∀ i, reg.Accepts limit (r.item item v i) ↔ valid v) :
    reg.Accepts limit r ↔
      ∃ items, r.source = some (.arr items) ∧ ∀ v ∈ stripRest items, valid v := by
  rw [Accepts, answer_array hshape]
  split
  · next items hsource =>
    -- All items are translated if and only if each is valid, wherever it stands.
    have hall : (∃ values, (stripRest items).zipIdx.mapM
        (fun x => reg.answer limit (r.item item x.1 x.2)) = .ok values) ↔
        ∀ v ∈ stripRest items, valid v := by
      rw [exists_mapM_eq_ok_iff]
      constructor
      · intro h v hv
        obtain ⟨i, hi⟩ := List.getElem?_of_mem hv
        exact (hitem items hsource v hv i).mp (h (v, i) (List.mk_mem_zipIdx_iff_getElem?.mpr hi))
      · rintro h ⟨v, i⟩ hvi
        have hv := List.mem_of_getElem? (List.mk_mem_zipIdx_iff_getElem?.mp hvi)
        exact (hitem items hsource v hv i).mpr (h v hv)
    rw [hsource]
    constructor
    · rintro ⟨v, hv⟩
      obtain ⟨values, hvalues, -⟩ := bind_eq_ok_iff.mp hv
      exact ⟨items, rfl, hall.mp ⟨values, hvalues⟩⟩
    · rintro ⟨items', heq, hvalid⟩
      cases heq
      obtain ⟨values, hvalues⟩ := hall.mpr hvalid
      exact ⟨.list values, bind_eq_ok_iff.mpr ⟨values, hvalues, rfl⟩⟩
  · next hnot =>
    constructor
    · rintro ⟨v, hv⟩
      cases hv
    · rintro ⟨items, hsource, -⟩
      exact absurd hsource (hnot items)

theorem accepts_nullable {inner : TypeId} (hshape : reg.shape r.id = .nullable inner)
    (hsource : r.source.all Json.isNull = false) :
    reg.Accepts limit r ↔ reg.Accepts limit (r.as inner) := by
  rw [Accepts, Accepts, answer_nullable hshape, if_neg (by simp [hsource])]
  cases reg.answer limit (r.as inner) with
  | ok v => rfl
  | error e =>
    dsimp only
    split <;> simp

/-- An ordered choice accepts what some alternative accepts, as long as a final failure of
one alternative rules out the others. -/
theorem accepts_union {alternatives : List TypeId}
    (hshape : reg.shape r.id = .union alternatives)
    (hfinal : ∀ a ∈ alternatives, ∀ e, reg.answer limit (r.as a) = .error e →
      e.rejectedAt r.path = false → ∀ a' ∈ alternatives, ¬ reg.Accepts limit (r.as a')) :
    reg.Accepts limit r ↔ ∃ a ∈ alternatives, reg.Accepts limit (r.as a) := by
  constructor
  · rintro ⟨v, hv⟩
    obtain ⟨a, ha, hv⟩ := of_answer_union_eq_ok hshape hv
    exact ⟨a, ha, v, hv⟩
  · rintro ⟨a, ha, v, hv⟩
    rw [Accepts, answer_union hshape]
    -- An alternative before `a` gets in the way only if it fails for good.
    rcases firstAccepted_cases r.path (reg.exhausted r.id r.path r.source)
      (fun a => reg.answer limit (r.as a)) alternatives with
      ⟨before, a', after, hsplit, -, hrej, heq⟩ | ⟨hall, -⟩
    · rw [heq]
      cases ha' : reg.answer limit (r.as a') with
      | ok w => exact ⟨w, rfl⟩
      | error e =>
        exact absurd ⟨v, hv⟩ (hfinal a' (by simp [hsplit]) e ha' (hrej e ha') a ha)
    · obtain ⟨e, he, -⟩ := hall a ha
      rw [hv] at he
      cases he

/-- A product without required entries and computed fields accepts a record with its tag
if every field gets a value. -/
theorem accepts_product {tag : String} {fields : List Field}
    (hshape : reg.shape r.id = .product { source := { tag }, fields })
    (hcomputed : ∀ field ∈ fields, field.isComputed = false)
    (hdepth : ∀ record, r.source = some (.obj record) → r.depth < limit) :
    reg.Accepts limit r ↔ ∃ record : Json.Record, r.source = some (.obj record) ∧
      record.tag? = some tag ∧
        ∀ field ∈ fields, ∃ v, reg.answerField limit r record field = .ok v := by
  constructor
  · rintro ⟨v, hv⟩
    obtain ⟨record, slots, hrecord, -, hslots, -⟩ := of_answer_product_eq_ok hshape hv
    obtain ⟨hsource, hadmits⟩ := matchRecord_eq_ok_iff.mp hrecord
    refine ⟨record, hsource, hadmits.1, fun field hfield => ?_⟩
    obtain ⟨slot, -, hslot⟩ := exists_of_forall₂_of_mem_left hslots hfield
    rw [Supplies, if_neg (by simp [hcomputed field hfield])] at hslot
    obtain ⟨v, -, hv⟩ := hslot
    exact ⟨v, hv⟩
  · rintro ⟨record, hsource, htag, hall⟩
    have hrecord : reg.matchRecord r.id { tag } r.source r.path = .ok record :=
      matchRecord_eq_ok_iff.mpr ⟨hsource, htag, by simp⟩
    -- No field is computed, so the slots are filled by what the fields are answered with.
    obtain ⟨slots, hslots⟩ : ∃ slots, (fields.mapM fun field =>
        if field.isComputed then .ok none
        else some <$> reg.answerField limit r record field) = .ok slots := by
      refine exists_mapM_eq_ok_iff.mpr fun field hfield => ?_
      obtain ⟨v, hv⟩ := hall field hfield
      refine ⟨some v, ?_⟩
      rw [if_neg (by simp [hcomputed field hfield]), hv]
      rfl
    refine ⟨reg.buildNode r.id { source := { tag }, fields } record slots, ?_⟩
    rw [answer_product hshape, hrecord]
    dsimp only
    rw [if_pos (hdepth record hsource), hslots]
    rfl

end Registry

namespace Grammar

variable {g : Grammar} {b : Builder} {reg : Registry} {limit : Nat} {r : Request}

/-! ### Kinds -/

theorem acceptsSource_any (source : Option Json) : Primitive.any.acceptsSource source = true := by
  cases source <;> rfl

theorem Has.shape (hb : b.freeze = .ok reg) {id : TypeId} {shape : Shape} (h : g.Has b id shape) :
    reg.shape id = shape := by
  rw [shape_of_freeze hb, h.1]
  rfl

theorem accepts_any (hb : b.freeze = .ok reg) (h : g.Has b r.id (.primitive .any)) :
    reg.Accepts limit r :=
  (Registry.accepts_primitive (h.shape hb)).mpr (acceptsSource_any r.source)

theorem accepts_of_meansKind (hb : b.freeze = .ok reg) {name : String}
    (h : g.MeansKind b name r.id) : reg.Accepts limit r ↔ acceptsKind name r.source := by
  unfold MeansKind at h
  unfold acceptsKind
  split_ifs at h ⊢
  · exact iff_true_intro (accepts_any hb h)
  · obtain ⟨item, hid, hitem⟩ := h
    rw [Registry.accepts_array (fun _ => True) (hid.shape hb)]
    · simp
    · exact fun _ _ v _ i => iff_true_intro (accepts_any hb hitem)
  · obtain ⟨kind, hkind, hid⟩ := h
    rw [Registry.accepts_primitive (hid.shape hb), hkind]
    simp

/-- A type of values of a kind never fails for good. -/
theorem rejectedAt_of_meansKind (hb : b.freeze = .ok reg) {name : String}
    (h : g.MeansKind b name r.id) {e : TranslationError} (he : reg.answer limit r = .error e) :
    e.rejectedAt r.path = true := by
  have hprimitive : ∀ {kind : Primitive}, g.Has b r.id (.primitive kind) →
      e.rejectedAt r.path = true := by
    intro kind hid
    rw [Registry.answer_primitive (hid.shape hb)] at he
    exact Registry.rejectedAt_of_translatePrimitive_eq_error he
  have hnot : ¬ acceptsKind name r.source := by
    rw [← accepts_of_meansKind hb h]
    rintro ⟨v, hv⟩
    rw [hv] at he
    cases he
  unfold MeansKind at h
  unfold acceptsKind at hnot
  split_ifs at h hnot
  · exact absurd trivial hnot
  · obtain ⟨item, hid, -⟩ := h
    rw [Registry.answer_array (hid.shape hb)] at he
    split at he
    · next items hsource => exact absurd ⟨items, hsource⟩ hnot
    · cases he
      exact Registry.rejectedAt_mismatch
  · obtain ⟨kind, -, hid⟩ := h
    exact hprimitive hid

/-! ### Names of nodes -/

/-- A source is a record with the tag of a node type, but not a node of that type. -/
def Misses (g : Grammar) (source : Option Json) : Prop :=
  ∃ (record : Json.Record) (tag : String), source = some (.obj record) ∧
    record.tag? = some tag ∧ ¬ g.ValidNode tag (.obj record)

/-- A request for the nodes of a name is answered with a value for just these nodes, and
fails for good only on a record that is no valid node of any name. -/
structure Answers (g : Grammar) (reg : Registry) (limit : Nat) (name : String) (r : Request) :
    Prop where
  accepts : reg.Accepts limit r ↔ ∃ v, r.source = some v ∧ g.ValidNode name v
  misses : ∀ e, reg.answer limit r = .error e → e.rejectedAt r.path = false → g.Misses r.source

theorem Misses.not_validNode {name : String} {v : Json} (h : g.Misses (some v)) :
    ¬ g.ValidNode name v := by
  intro hvalid
  obtain ⟨record, tag, heq, htag, hnot⟩ := h
  cases heq
  obtain ⟨record', tag', heq, htag', -, -, hvalid⟩ := hvalid.exists_type
  cases heq
  rw [htag] at htag'
  cases htag'
  exact hnot hvalid

/-- Of the kinds, only those that take anything take records. -/
theorem Misses.name_eq_of_acceptsKind {name : String} {source : Option Json}
    (h : g.Misses source) (haccepts : acceptsKind name source) :
    name = "any" ∨ name = "object" := by
  obtain ⟨record, tag, rfl, -, -⟩ := h
  unfold acceptsKind at haccepts
  split_ifs at haccepts with hobject
  · exact .inr hobject
  · obtain ⟨items, heq⟩ := haccepts
    cases heq
  · obtain ⟨kind, hkind, hrecord⟩ := haccepts
    have hname : kind.name = name := by simpa using List.find?_some hkind
    cases kind <;> cases hrecord
    exact .inl hname.symm

/-! ### Lists of alternatives -/

/-- The type of a list of names accepts what one of the names accepts, as long as no node
stands beside a kind that takes anything. -/
theorem accepts_of_meansList (hb : b.freeze = .ok reg) {node : String → Bool}
    {names : List String} (h : g.MeansList b node names r.id)
    (hanswers : ∀ {name : String} {id : TypeId}, g.MeansNode b name id →
      g.Answers reg limit name (r.as id))
    (hunmixed : (∃ name ∈ names, node name = true) → ∀ name ∈ names, node name = false →
      name ≠ "any" ∧ name ≠ "object") :
    reg.Accepts limit r ↔ ∃ name ∈ names,
      if node name then ∃ v, r.source = some v ∧ g.ValidNode name v
      else acceptsKind name r.source := by
  obtain ⟨ids, hids, hunion⟩ := h
  have hname : ∀ {name : String} {id : TypeId}, g.MeansName b node name id →
      (reg.Accepts limit (r.as id) ↔ if node name then ∃ v, r.source = some v ∧ g.ValidNode name v
        else acceptsKind name r.source) := by
    intro name id h
    unfold MeansName at h
    split_ifs at h ⊢
    · exact (hanswers h).accepts
    · exact accepts_of_meansKind hb h
  -- One name for each alternative, and one alternative for each name.
  rw [exists_mem_iff_of_forall₂ hids fun name id _ h => (hname h).symm]
  rcases hunion with hone | hid
  · have hmem : ∀ id, id ∈ ids ↔ id = r.id := by
      intro id
      rw [← (distinct_spec ids).2 id, hone, List.mem_singleton]
    constructor
    · exact fun h => ⟨r.id, (hmem _).mpr rfl, h⟩
    · rintro ⟨id, hid, h⟩
      rwa [(hmem id).mp hid] at h
  · rw [Registry.accepts_union (hid.shape hb)]
    · exact exists_congr fun id => and_congr_left' ((distinct_spec ids).2 id)
    · intro id hid e he hfinal id' hid' haccepts
      obtain ⟨name, hmem, hmeans⟩ :=
        exists_of_forall₂_of_mem_right hids (((distinct_spec ids).2 id).mp hid)
      obtain ⟨name', hmem', hmeans'⟩ :=
        exists_of_forall₂_of_mem_right hids (((distinct_spec ids).2 id').mp hid')
      -- Only a node type fails for good, and then the tag of the record is its own.
      unfold MeansName at hmeans
      split_ifs at hmeans with hnode
      · have hmisses : g.Misses r.source := (hanswers hmeans).misses e he hfinal
        have haccepts := (hname hmeans').mp haccepts
        split_ifs at haccepts with hnode'
        · obtain ⟨v, hsource, hvalid⟩ := haccepts
          rw [hsource] at hmisses
          exact hmisses.not_validNode hvalid
        · obtain ⟨hany, hobject⟩ := hunmixed ⟨name, hmem, hnode⟩ name' hmem' (by simpa using hnode')
          rcases hmisses.name_eq_of_acceptsKind haccepts with heq | heq
          · exact hany heq
          · exact hobject heq
      · have hrej : e.rejectedAt (r.as id).path = true := rejectedAt_of_meansKind hb hmeans he
        rw [show (r.as id).path = r.path from rfl, hfinal] at hrej
        cases hrej

/-! ### Descriptors -/

/-- A request with nothing but its source, and with room for the nodes in it. -/
structure Ready (limit : Nat) (r : Request) : Prop where
  preset : r.preset = none
  room : r.depth + Json.nesting? r.source ≤ limit

/-- No list within a descriptor names nodes beside a kind that takes anything. -/
def Unmixed (d : Descriptor) : Prop :=
  ∀ names, Within (.nodeOrValueTypes names) d → (∃ name ∈ names, namesNodes name = true) →
    "any" ∉ names ∧ "object" ∉ names

theorem within_of_itemOf? {links : List Descriptor} {head d inner : Descriptor}
    (h : itemOf? links = some d) (hinner : Within inner d) :
    Within inner (.chain (head :: links)) := by
  unfold itemOf? at h
  split at h
  · cases h
  · cases h
    exact .link (by simp) (.item hinner)
  · cases h
    exact .link (by simp) hinner

/-- A type accepts what is valid for the descriptor it stands for, if it does so for the
names of nodes. -/
theorem accepts_of_means (hb : b.freeze = .ok reg) {n : Nat}
    (hanswers : ∀ {name : String} {r : Request}, g.MeansNode b name r.id → Ready limit r →
      Json.nesting? r.source < n → g.Answers reg limit name r)
    {d : Descriptor} {id : TypeId} (h : g.Means b d id) (hunmixed : Unmixed d) :
    ∀ {r : Request}, r.id = id → Ready limit r → Json.nesting? r.source < n →
      (reg.Accepts limit r ↔ g.Valid d r.source) := by
  -- By induction on the meaning, for any source: the items of an array are other sources.
  induction h with
  | kind h =>
    rintro r rfl hready hlt
    rw [accepts_of_meansKind hb h, valid_kind_iff]
  | nodeTypes h =>
    rintro r rfl hready hlt
    rw [accepts_of_meansList hb h (fun hnode => hanswers hnode ⟨hready.preset, hready.room⟩ hlt)
      (by simp), valid_nodeTypes_iff]
    simp
  | nodeOrValueTypes h =>
    rintro r rfl hready hlt
    rw [accepts_of_meansList hb h (fun hnode => hanswers hnode ⟨hready.preset, hready.room⟩ hlt),
      valid_nodeOrValueTypes_iff]
    intro hnode name hmem _
    obtain ⟨hany, hobject⟩ := hunmixed _ (.refl _) hnode
    exact ⟨fun heq => hany (heq ▸ hmem), fun heq => hobject (heq ▸ hmem)⟩
  | oneOf h =>
    rintro r rfl hready hlt
    rw [Registry.accepts_primitive (h.shape hb), valid_oneOf_iff]
  | shapeOf h =>
    rintro r rfl hready hlt
    exact iff_of_true (accepts_any hb h) .shapeOf
  | @array head rest id item harray h _ hany ih =>
    rintro r rfl hready hlt
    rw [valid_array_iff harray]
    refine Registry.accepts_array _ (h.shape hb) ?_
    intro items hsource v hv i
    have hle : v.nesting ≤ Json.nesting? r.source := by
      rw [hsource]
      exact Json.nesting_le_of_mem (mem_of_mem_stripRest hv)
    cases hitem : itemOf? rest with
    | none => exact iff_of_true (accepts_any hb (hany hitem)) (by simp)
    | some d =>
      have hroom : r.depth + v.nesting ≤ limit :=
        Nat.le_trans (Nat.add_le_add_left hle _) hready.room
      have hvalid := ih d hitem (fun names h => hunmixed names (within_of_itemOf? hitem h))
        (r := r.item item v i) rfl ⟨rfl, hroom⟩ (Nat.lt_of_le_of_lt hle hlt)
      rw [hvalid]
      exact ⟨fun h d' hd' => by cases hd'; exact h, fun h => h d rfl⟩
  | first hother hfirst _ ih =>
    intro r hid hready hlt
    rw [valid_first_iff hother hfirst]
    exact ih (fun names h => hunmixed names (.link (List.mem_of_find?_eq_some hfirst) h)) hid hready
      hlt

/-! ### Fields -/

/-- A field gets a value if the record is valid there. -/
theorem accepts_of_fieldMeans (hb : b.freeze = .ok reg) {f : GrammarField} {field : Field}
    {record : Json.Record} (h : g.FieldMeans b f field) (hready : r.preset = none)
    (hvalid : ∀ {d : Descriptor} {part : Request}, f.descriptor = some d → g.Means b d part.id →
      part.source = record.get? f.name → part.preset = none → part.depth = r.depth + 1 →
      (reg.Accepts limit part ↔ g.Valid d part.source)) :
    (∃ v, reg.answerField limit r record field = .ok v) ↔ g.ValidField f record := by
  obtain ⟨d, base, hd, hbase, htype⟩ := h.meaning
  rw [validField_iff hd]
  have hread : reg.readField field record r.path r.preset =
      Registry.readSource field (record.get? f.name) (r.path.field f.name) := by
    rw [Registry.readField, h.source, hready]
  rw [Registry.answerField, hread]
  have hpart : ∀ {id : TypeId}, id = base →
      (reg.Accepts limit (r.part id (record.get? f.name) (r.path.field f.name)) ↔
        g.Valid d (record.get? f.name)) := by
    rintro id rfl
    exact hvalid hd hbase rfl rfl rfl
  -- Either the default settles the field, or the base type has to accept the value.
  rcases Registry.readSource_cases field (record.get? f.name) (r.path.field f.name) with
    ⟨v, hv, hnull, heq⟩ | ⟨hnotNull, heq⟩
  · rw [heq]
    refine iff_of_true ⟨v, rfl⟩ (.inl ⟨hnull, ?_⟩)
    by_contra hnot
    rw [h.required hnot] at hv
    cases hv
  · rw [heq]
    show reg.Accepts limit _ ↔ _
    by_cases hdispensable : f.optional = true ∨ f.default.isSome = true
    · obtain ⟨v, hv⟩ := h.default hdispensable
      have hnull : (record.get? f.name).all Json.isNull = false := hnotNull v hv
      have haccepts : reg.Accepts limit (r.part field.type (record.get? f.name)
          (r.path.field f.name)) ↔ g.Valid d (record.get? f.name) := by
        rcases htype with heq | ⟨hnullable, -⟩
        · exact hpart heq
        · rw [Registry.accepts_nullable (hnullable.shape hb) hnull]
          exact hpart rfl
      rw [haccepts, hnull]
      simp
    · rcases htype with heq | ⟨-, hoptional⟩
      · rw [hpart heq]
        exact ⟨.inr, fun h => h.resolve_left fun h => hdispensable h.2⟩
      · exact absurd (.inl hoptional) hdispensable

/-! ### Bodies of names -/

theorem FieldMeans.isComputed {f : GrammarField} {field : Field} (h : g.FieldMeans b f field) :
    field.isComputed = false := by
  rw [Field.isComputed, Field.rule?]
  by_cases hdispensable : f.optional = true ∨ f.default.isSome = true
  · obtain ⟨v, hv⟩ := h.default hdispensable
    rw [hv]
    rfl
  · rw [h.required hdispensable]
    rfl

/-- The product of a node type accepts its nodes, if the types of descriptors accept what is
valid in sources nested less deep. -/
theorem answers_type (hb : b.freeze = .ok reg) {name : String} {fields : List GrammarField}
    {slots : List Field} (hapart : g.membersOf? name = none)
    (hfields : g.fieldsOf? name = some fields)
    (hshape : reg.shape r.id = .product { source := { tag := name }, fields := slots })
    (hall : List.Forall₂ (g.FieldMeans b) fields slots) (hready : Ready limit r)
    (hvalid : ∀ {f : GrammarField} {d : Descriptor} {part : Request}, f ∈ fields →
      f.descriptor = some d → g.Means b d part.id → Ready limit part →
      Json.nesting? part.source < Json.nesting? r.source →
      (reg.Accepts limit part ↔ g.Valid d part.source)) :
    g.Answers reg limit name r := by
  have haccepts : reg.Accepts limit r ↔ ∃ v, r.source = some v ∧ g.ValidNode name v := by
    rw [Registry.accepts_product hshape]
    · have hparts : ∀ record : Json.Record, r.source = some (.obj record) →
          ((∀ slot ∈ slots, ∃ v, reg.answerField limit r record slot = .ok v) ↔
            ∀ f ∈ fields, g.ValidField f record) := by
        intro record hsource
        refine (forall_mem_iff_of_forall₂ hall fun f slot hf h => ?_).symm
        refine (accepts_of_fieldMeans hb h hready.preset ?_).symm
        intro d part hd hmeans hpart hpreset hdepth
        have hlt : Json.nesting? part.source < Json.nesting? r.source := by
          rw [hpart, hsource]
          exact Json.nesting_get?_lt record f.name
        have hroom := hready.room
        exact hvalid hf hd hmeans ⟨hpreset, by omega⟩ hlt
      constructor
      · rintro ⟨record, hsource, htag, h⟩
        exact ⟨.obj record, hsource, (validNode_type_iff hapart hfields).mpr
          ⟨record, rfl, htag, (hparts record hsource).mp h⟩⟩
      · rintro ⟨v, hsource, h⟩
        obtain ⟨record, rfl, htag, h⟩ := (validNode_type_iff hapart hfields).mp h
        exact ⟨record, hsource, htag, (hparts record hsource).mpr h⟩
    · intro slot hslot
      obtain ⟨f, -, h⟩ := exists_of_forall₂_of_mem_right hall hslot
      exact h.isComputed
    · intro record hsource
      have hroom := hready.room
      rw [hsource, Json.nesting?, Option.map_some, Option.getD_some, Json.nesting] at hroom
      omega
  refine ⟨haccepts, fun e he hfinal => ?_⟩
  -- The failure comes behind the pattern, so the record has the tag, and it is no valid node.
  have hanswer := Registry.final_of_eq_error he hfinal
  obtain ⟨record, hsource, htag, -⟩ := Registry.admits_of_product_final hanswer hshape
  refine ⟨record, name, hsource, htag, fun hnode => ?_⟩
  obtain ⟨v, hv⟩ := haccepts.mpr ⟨_, hsource, hnode⟩
  rw [hv] at he
  cases he

/-- The union of the members of a group accepts their nodes, if their own types do. -/
theorem answers_group {name : String} {members : List String} {ids : List TypeId}
    (hmembers : g.membersOf? name = some members) (hshape : reg.shape r.id = .union ids)
    (hall : List.Forall₂ (fun member id => g.Answers reg limit member (r.as id)) members ids) :
    g.Answers reg limit name r := by
  constructor
  · rw [Registry.accepts_union hshape]
    · have haccepts := exists_mem_iff_of_forall₂
        (P := fun member => ∃ v, r.source = some v ∧ g.ValidNode member v) hall
        fun member id _ h => h.accepts.symm
      rw [← haccepts]
      constructor
      · rintro ⟨member, hmem, v, hsource, hvalid⟩
        exact ⟨v, hsource, (validNode_group_iff hmembers).mpr ⟨member, hmem, hvalid⟩⟩
      · rintro ⟨v, hsource, hvalid⟩
        obtain ⟨member, hmem, hvalid⟩ := (validNode_group_iff hmembers).mp hvalid
        exact ⟨member, hmem, v, hsource, hvalid⟩
    · intro id hid e he hfinal id' hid' haccepts
      obtain ⟨member, -, hanswers⟩ := exists_of_forall₂_of_mem_right hall hid
      obtain ⟨member', -, hanswers'⟩ := exists_of_forall₂_of_mem_right hall hid'
      have hmisses : g.Misses r.source := hanswers.misses e he hfinal
      obtain ⟨v, hsource, hvalid⟩ := hanswers'.accepts.mp haccepts
      rw [show r.source = some v from hsource] at hmisses
      exact hmisses.not_validNode hvalid
  · intro e he hfinal
    obtain ⟨id, hid, heq⟩ :=
      Registry.exists_of_union_final (Registry.final_of_eq_error he hfinal) hshape
    obtain ⟨member, -, hanswers⟩ := exists_of_forall₂_of_mem_right hall hid
    exact hanswers.misses e (heq.symm.trans he) hfinal

/-! ### Whole registries -/

/-- The type of a name accepts the nodes of that name. -/
theorem answers_of_meansNode (hb : b.freeze = .ok reg) (hregular : g.Regular PlainName)
    (hmembers : ∀ {name member : String} {members : List String},
      g.membersOf? name = some members → member ∈ members → g.isType member = true)
    (hdefines : ∀ name, g.Known name → g.Defines b name) :
    ∀ {name : String} {r : Request}, g.MeansNode b name r.id → Ready limit r →
      g.Answers reg limit name r := by
  suffices ∀ (n : Nat) {name : String} {r : Request}, Json.nesting? r.source = n →
      g.MeansNode b name r.id → Ready limit r → g.Answers reg limit name r by
    intro name r
    exact this _ rfl
  intro n
  -- How deep the source is nested falls from a record to its fields.
  induction n using Nat.strongRecOn with
  | ind n ih =>
    intro name r hn hname hready
    have hbelow : ∀ {name : String} {part : Request}, g.MeansNode b name part.id →
        Ready limit part → Json.nesting? part.source < n → g.Answers reg limit name part :=
      fun hname hready hlt => ih _ hlt rfl hname hready
    -- Types first: the members of groups are types, read from the same source value.
    have htype : ∀ {name : String} {id : TypeId}, g.isType name = true → g.MeansNode b name id →
        g.Answers reg limit name (r.as id) := by
      intro name id htype ⟨hknown, hfind⟩
      have hbody : ∀ {id' : TypeId}, b.find? name = some id' → b.body? id' = b.body? id := by
        intro id' hfind'
        rw [Option.some.inj (hfind.symm.trans hfind')]
      cases hdefines name hknown with
      | group members_eq =>
        refine absurd ⟨htype, ?_⟩ (hregular.apart name)
        rw [isGroup, members_eq]
        rfl
      | @type id' fields slots apart fields_eq find body all =>
        have hshape : reg.shape id = .product { source := { tag := name }, fields := slots } := by
          rw [shape_of_freeze hb, ← hbody find, body]
          rfl
        refine answers_type hb apart fields_eq hshape all ⟨hready.preset, hready.room⟩ ?_
        intro f d part hf hd hmeans hready hlt
        have hunmixed : Unmixed d :=
          hregular.unmixed _ (mem_of_lookup_eq_some fields_eq) f hf d hd
        exact accepts_of_means hb hbelow hmeans hunmixed rfl hready (hn ▸ hlt)
    obtain ⟨hknown, hfind⟩ := hname
    by_cases hist : g.isType name = true
    · exact htype hist ⟨hknown, hfind⟩
    · cases hdefines name hknown with
      | type _ fields_eq =>
        refine absurd ?_ hist
        rw [isType, fields_eq]
        rfl
      | @group id members ids members_eq find body all =>
        have hshape : reg.shape r.id = .union ids := by
          rw [shape_of_freeze hb, ← Option.some.inj (find.symm.trans hfind), body]
          rfl
        refine answers_group members_eq hshape (forall₂_imp_of_mem_left ?_ all)
        intro member id hmem hfind
        have hmember := hmembers members_eq hmem
        exact htype hmember ⟨.inl hmember, hfind⟩

/-- The registry of a grammar accepts just the trees that the grammar describes: records with
the tag of their type, of which every field is left out where it may be, or valid. -/
theorem accepts_iff_valid {table : GrammarTable} {reg : Registry}
    (hregular : (ofTable table).Regular PlainName) (hreg : (ofTable table).registry = .ok reg)
    {name : String} {fields : List GrammarField}
    (hfields : (ofTable table).fieldsOf? name = some fields) {limit : Nat} {source : Json}
    (hlimit : source.nesting ≤ limit) :
    (∃ v, reg.translateNamed limit name source = .ok v) ↔
      ∃ record : Json.Record, source = .obj record ∧ record.tag? = some name ∧
        ∀ f ∈ fields, (ofTable table).ValidField f record := by
  have htype : (ofTable table).isType name = true := by
    rw [isType, hfields]
    rfl
  have hapart : (ofTable table).membersOf? name = none := by
    by_contra hsome
    exact hregular.apart name ⟨htype, Option.isSome_iff_ne_none.mpr hsome⟩
  obtain ⟨b, hb, hs, hdefines⟩ := exists_meaning (fun h => hregular.plain _ h)
    (fun _ _ hmembers _ hm => .inl (isType_of_mem_group hmembers hm)) hreg
  obtain ⟨id, hfind⟩ := hs.declared (.inl htype)
  have hcontains : reg.contains id = true := by
    rw [Registry.contains, size_of_freeze hb]
    exact decide_eq_true (find?_eq_some hfind).1
  -- The whole source is a request with all the room below the limit.
  have hanswers : (ofTable table).Answers reg limit name ⟨id, some source, .root, none, 0⟩ :=
    answers_of_meansNode hb hregular isType_of_mem_group hdefines ⟨.inl htype, hfind⟩
      ⟨rfl, by simpa [Json.nesting?] using hlimit⟩
  rw [← validNode_type_iff hapart hfields, Registry.translateNamed, find?_of_freeze hb, hfind]
  dsimp only
  rw [Registry.translate, if_pos hcontains]
  refine hanswers.accepts.trans ?_
  simp

/-! ### Names that are taken for each other -/

/-- Four types without fields, and two types with a field for nodes of two of them. -/
def twoLists (a b c d : String) : GrammarTable where
  name := "lists"
  types := [(a, {}), (b, {}), (c, {}), (d, {}),
    ("U", { fields := [{ name := "of", descriptor := some (.nodeTypes [a, b]) }] }),
    ("V", { fields := [{ name := "of", descriptor := some (.nodeTypes [c, d]) }] })]

theorem regular_twoLists {a b c d : String} {plain : String → Prop}
    (h : ∀ name ∈ [a, b, c, d, "U", "V"], plain name) :
    (ofTable (twoLists a b c d)).Regular plain where
  apart name := by
    rintro ⟨-, hgroup⟩
    cases hgroup
  plain name hname := by
    rcases hname with htype | hgroup
    · exact h name (mem_keys_iff.mpr htype)
    · cases hgroup
  unmixed := by
    have hnone : ∀ {names names' : List String},
        ¬ Within (.nodeOrValueTypes names) (.nodeTypes names') := by
      intro names names' h
      cases h
    simp [ofTable, twoLists, hnone]

/-- A record for the second of the two types. -/
def holding (tag : String) : Json.Record := [("type", .str "V"), ("of", .obj [("type", .str tag)])]

/-- A name that is not that of a primitive and holds neither a bracket nor a bar. -/
structure Barless (name : String) : Prop where
  notPrimitive : ∀ kind : Primitive, name ≠ kind.name
  noOpening : '<' ∉ name.toList
  noClosing : '>' ∉ name.toList
  noBar : ¬ bar <:+: name.toList

/-- A record for the second of the two types is valid if it holds a node of the second type
of its list. -/
theorem validField_holding {a b c d : String} {f : GrammarField}
    (htype : (ofTable (twoLists a b c d)).fieldsOf? d = some [])
    (hf : f ∈ [{ name := "of", descriptor := some (.nodeTypes [c, d]) : GrammarField }]) :
    (ofTable (twoLists a b c d)).ValidField f (holding d) := by
  obtain rfl := List.mem_singleton.mp hf
  exact .present rfl (.nodeType (by simp) (.type htype rfl rfl (by simp)))

/-- With names that are told apart, the record is translated. -/
theorem accepts_holding : ∃ reg, (ofTable (twoLists "A" "B" "C" "D")).registry = .ok reg ∧
    ∃ v, reg.translateNamed 2 "V" (.obj (holding "D")) = .ok v := by
  obtain ⟨reg, hreg, -⟩ : ∃ reg, (ofTable (twoLists "A" "B" "C" "D")).registry = .ok reg ∧
      true = true := exists_of_check (by decide +kernel)
  have hplain : ∀ name ∈ ["A", "B", "C", "D", "U", "V"], PlainName name := by
    intro name hname
    simp only [List.mem_cons, List.not_mem_nil, or_false] at hname
    rcases hname with rfl | rfl | rfl | rfl | rfl | rfl <;>
      exact ⟨by intro kind; cases kind <;> decide, by decide, by decide,
        separable_of_not_mem (by decide)⟩
  exact ⟨reg, hreg, (accepts_iff_valid (regular_twoLists hplain) hreg rfl (by decide)).mpr
    ⟨holding "D", rfl, rfl, fun _ => validField_holding rfl⟩⟩

/-- Names without a bar do not suffice: the lists of `A` and `| B` and of `A |` and `B` give
their unions one name, so the second list gets the type of the first. -/
theorem not_accepts_iff_valid_of_barless :
    ¬ ∀ (table : GrammarTable) (reg : Registry) (name : String) (fields : List GrammarField)
      (limit : Nat) (source : Json), (ofTable table).Regular Barless →
      (ofTable table).registry = .ok reg → (ofTable table).fieldsOf? name = some fields →
      source.nesting ≤ limit →
      ((∃ v, reg.translateNamed limit name source = .ok v) ↔
        ∃ record : Json.Record, source = .obj record ∧ record.tag? = some name ∧
          ∀ f ∈ fields, (ofTable table).ValidField f record) := by
  intro h
  obtain ⟨reg, hreg, hcheck⟩ : ∃ reg,
      (ofTable (twoLists "A" "| B" "A |" "B")).registry = .ok reg ∧
        (reg.find? "V" = some ⟨5⟩ && reg.rejectsWithin 2 5 ⟨5⟩ (.obj (holding "B"))) = true :=
    exists_of_check (by decide +kernel)
  obtain ⟨hfind, hrejects⟩ := Bool.and_eq_true_iff.mp hcheck
  obtain ⟨e, he⟩ := Registry.exists_of_rejectsWithin hrejects
  have hbarless : ∀ name ∈ ["A", "| B", "A |", "B", "U", "V"], Barless name := by
    intro name hname
    simp only [List.mem_cons, List.not_mem_nil, or_false] at hname
    rcases hname with rfl | rfl | rfl | rfl | rfl | rfl <;>
      exact ⟨by intro kind; cases kind <;> decide, by decide, by decide, by decide⟩
  obtain ⟨v, hv⟩ := (h _ reg "V" _ 2 (.obj (holding "B")) (regular_twoLists hbarless) hreg rfl
    (by decide)).mpr ⟨holding "B", rfl, rfl, fun _ => validField_holding rfl⟩
  rw [Registry.translateNamed, of_decide_eq_true hfind] at hv
  rw [show reg.translate 2 ⟨5⟩ (.obj (holding "B")) = .ok v from hv] at he
  cases he

end Grammar

end TypedTree
