/-
The nodes that answer requests, and how they are built.

On its way to a product a request stays at one place. Main statements:

* `Registry.Passes`, `Registry.Hands` — the steps at one place: nullables and unions pass a
  request on as it is, inspect shapes hand the probed value over with it;
* `Registry.passes_or_exists_handsDown` — a run at one place has a last inspect shape, if any;
* `Registry.Builds` — a node is built from a record, field by field;
* `Registry.exists_answer_product_iff` — when a product answers;
* `Registry.exists_builds_of_answer` — a node that answers a request is built at its place.

Design notes: `Calls` says what a request might lead to, so that a recursion ends; the steps
here are those that are taken.
-/
import Mathlib.Logic.Relation
import TypedTree.Proofs.Translation.Commit
import TypedTree.Proofs.Translation.Typing

namespace TypedTree

/-- Two requests read the same source at the same place. -/
structure Request.SamePlace (r s : Request) : Prop where
  source : s.source = r.source
  path : s.path = r.path
  depth : s.depth = r.depth

theorem Request.SamePlace.refl (r : Request) : r.SamePlace r := ⟨rfl, rfl, rfl⟩

theorem Request.SamePlace.trans {r s t : Request} (h : r.SamePlace s) (h' : s.SamePlace t) :
    r.SamePlace t :=
  ⟨h'.source.trans h.source, h'.path.trans h.path, h'.depth.trans h.depth⟩

/-- The same request with nothing that stands ready. -/
def Request.withoutPreset (r : Request) : Request := { r with preset := none }

theorem Request.SamePlace.withoutPreset {r s : Request} (h : r.SamePlace s) :
    r.withoutPreset.SamePlace s.withoutPreset :=
  ⟨h.source, h.path, h.depth⟩

namespace Registry

open Relation (ReflTransGen)

variable {reg : Registry} {limit : Nat} {r s t : Request}

/-! ### Steps at one place -/

/-- A nullable passes a request on to the type inside, and a union to an alternative if it
has rejected those before. -/
inductive Passes (reg : Registry) (limit : Nat) : Request → Request → Prop
  | inner {r : Request} {inner : TypeId} (shape : reg.shape r.id = .nullable inner)
      (present : r.source.all Json.isNull = false) : Passes reg limit r (r.as inner)
  | alternative {r : Request} {before after : List TypeId} {a : TypeId}
      (shape : reg.shape r.id = .union (before ++ a :: after))
      (rejected : ∀ b ∈ before, ∃ e, reg.answer limit (r.as b) = .error e ∧
        e.rejectedAt r.path = true) : Passes reg limit r (r.as a)

/-- An inspect shape hands the probed value to the target it chooses. -/
inductive Hands (reg : Registry) (limit : Nat) (i : Inspect) (probed : Value) :
    Request → Request → Prop
  | target {r : Request} {record : Json.Record} {arm : Arm} (shape : reg.shape r.id = .inspect i)
      (source : reg.inspectable? i r.source = some record)
      (probe : reg.answer limit (r.probe i record) = .ok probed)
      (choice : i.arms.find? (fun arm => reg.isInstance arm.test probed) = some arm) :
      Hands reg limit i probed r (r.handing arm.target ⟨i.field, probed⟩)

/-- An inspect shape hands the probed value down to a request, through nullables and unions
alone. -/
def HandsDown (reg : Registry) (limit : Nat) (i : Inspect) (probed : Value) (r s : Request) :
    Prop :=
  ∃ next, reg.Hands limit i probed r next ∧ ReflTransGen (reg.Passes limit) next s

/-- A step at one place. -/
def Settles (reg : Registry) (limit : Nat) (r s : Request) : Prop :=
  reg.Passes limit r s ∨ ∃ i probed, reg.Hands limit i probed r s

section

variable {i : Inspect} {probed : Value}

theorem Passes.eq_as (h : reg.Passes limit r s) : s = r.as s.id := by
  cases h <;> rfl

theorem Passes.shape_ne_inspect (h : reg.Passes limit r s) : reg.shape r.id ≠ .inspect i := by
  cases h with
  | inner shape => simp [shape]
  | alternative shape => simp [shape]

theorem Passes.mem_samePath (h : reg.Passes limit r s) : s.id ∈ (reg.shape r.id).samePath := by
  cases h with
  | inner shape => simp [shape, Shape.samePath, Request.as]
  | alternative shape => simp [shape, Shape.samePath, Request.as]

theorem Hands.eq_handing (h : reg.Hands limit i probed r s) :
    s = r.handing s.id ⟨i.field, probed⟩ := by
  cases h
  rfl

theorem Hands.shape (h : reg.Hands limit i probed r s) : reg.shape r.id = .inspect i := by
  cases h
  assumption

theorem Hands.exists_arm (h : reg.Hands limit i probed r s) :
    ∃ arm ∈ i.arms, arm.target = s.id ∧ reg.isInstance arm.test probed = true := by
  cases h with
  | @target _ arm _ _ _ choice =>
    have hinst := List.find?_some choice
    exact ⟨arm, List.mem_of_find?_eq_some choice, rfl, hinst⟩

theorem Hands.mem_samePath (h : reg.Hands limit i probed r s) :
    s.id ∈ (reg.shape r.id).samePath := by
  obtain ⟨arm, harm, heq, -⟩ := h.exists_arm
  exact heq ▸ target_mem_samePath h.shape harm

/-- An inspect shape looks into a record with the tag of a target. -/
theorem inspectable?_eq_some {source : Option Json} {record : Json.Record} {tag : String}
    {arm : Arm} (hsource : source = some (.obj record)) (htag : record.tag? = some tag)
    (harm : arm ∈ i.arms) (hbuilds : reg.buildsFrom tag arm.target = true) :
    reg.inspectable? i source = some record := by
  subst hsource
  unfold inspectable?
  dsimp only
  rw [htag]
  dsimp only
  rw [if_pos (List.any_eq_true.mpr ⟨arm, harm, hbuilds⟩)]

/-- The target answers for the inspect shape. -/
theorem Hands.answer_eq (h : reg.Hands limit i probed r s) :
    reg.answer limit r = reg.answer limit s := by
  cases h with
  | target shape source probe choice =>
    rw [answer_inspect shape, source]
    dsimp only
    rw [probe]
    dsimp only
    rw [choice]

/-- The value that is handed over is that of the inspected key. -/
theorem Hands.answer_probe (h : reg.Hands limit i probed r s) :
    ∃ record, r.source = some (.obj record) ∧
      reg.answer limit (r.probe i record) = .ok probed := by
  cases h with
  | @target record _ _ source probe _ =>
    exact ⟨record, eq_of_inspectable? source, probe⟩

theorem Settles.mem_samePath (h : reg.Settles limit r s) : s.id ∈ (reg.shape r.id).samePath := by
  rcases h with h | ⟨i, probed, h⟩
  · exact h.mem_samePath
  · exact h.mem_samePath

theorem Settles.calls (h : reg.Settles limit r s) : Calls reg limit r s := by
  rcases h with hpass | ⟨i, probed, hhand⟩
  · rw [hpass.eq_as]
    exact .samePath hpass.mem_samePath
  · rw [hhand.eq_handing]
    exact .target hhand.mem_samePath

theorem Settles.samePlace (h : reg.Settles limit r s) : r.SamePlace s := by
  rcases h with h | ⟨i, probed, h⟩
  · rw [h.eq_as]
    exact ⟨rfl, rfl, rfl⟩
  · rw [h.eq_handing]
    exact ⟨rfl, rfl, rfl⟩

end

/-! ### Runs at one place -/

theorem samePlace_of_settles (h : ReflTransGen (reg.Settles limit) r s) : r.SamePlace s := by
  induction h with
  | refl => exact .refl r
  | tail _ hstep ih => exact ih.trans hstep.samePlace

theorem samePath_of_settles (h : ReflTransGen (reg.Settles limit) r s) :
    reg.SamePath r.id s.id := by
  induction h using ReflTransGen.head_induction_on with
  | refl => exact .refl s.id
  | head hstep _ ih => exact .step hstep.mem_samePath ih

theorem settles_of_passes (h : ReflTransGen (reg.Passes limit) r s) :
    ReflTransGen (reg.Settles limit) r s :=
  ReflTransGen.mono (fun _ _ => Or.inl) _ _ h

/-- What stands ready is passed on. -/
theorem eq_as_of_passes (h : ReflTransGen (reg.Passes limit) r s) : s = r.as s.id := by
  induction h with
  | refl => rfl
  | tail _ hstep ih =>
    rw [hstep.eq_as, ih]
    rfl

theorem HandsDown.preset_eq {i : Inspect} {probed : Value}
    (h : reg.HandsDown limit i probed r s) : s.preset = some ⟨i.field, probed⟩ := by
  obtain ⟨next, hhand, hpasses⟩ := h
  rw [eq_as_of_passes hpasses, hhand.eq_handing]
  rfl

theorem HandsDown.samePlace {i : Inspect} {probed : Value}
    (h : reg.HandsDown limit i probed r s) : r.SamePlace s := by
  obtain ⟨next, hhand, hpasses⟩ := h
  exact (Settles.samePlace (.inr ⟨i, probed, hhand⟩)).trans
    (samePlace_of_settles (settles_of_passes hpasses))

theorem HandsDown.shape {i : Inspect} {probed : Value} (h : reg.HandsDown limit i probed r s) :
    reg.shape r.id = .inspect i := by
  obtain ⟨next, hhand, -⟩ := h
  exact hhand.shape

theorem HandsDown.samePath {i : Inspect} {probed : Value} (h : reg.HandsDown limit i probed r s) :
    reg.SamePath r.id s.id := by
  obtain ⟨next, hhand, hpasses⟩ := h
  exact .step hhand.mem_samePath (samePath_of_settles (settles_of_passes hpasses))

/-- The value that is handed down is that of the inspected key. -/
theorem HandsDown.answer_probe {i : Inspect} {probed : Value} {record : Json.Record}
    (h : reg.HandsDown limit i probed r s) (hsource : s.source = some (.obj record)) :
    reg.answer limit (s.probe i record) = .ok probed := by
  have hplace := h.samePlace
  obtain ⟨next, hhand, -⟩ := h
  obtain ⟨found, hfound, hprobe⟩ := hhand.answer_probe
  rw [hplace.source, hfound] at hsource
  cases hsource
  rwa [Request.probe, Request.part, hplace.path, hplace.depth]

/-- On the way there was no inspect shape, or there was a last one. -/
theorem passes_or_exists_handsDown (h : ReflTransGen (reg.Settles limit) r t) :
    ReflTransGen (reg.Passes limit) r t ∨
      ∃ i probed mid, ReflTransGen (reg.Settles limit) r mid ∧
        reg.HandsDown limit i probed mid t := by
  induction h with
  | refl => exact .inl .refl
  | tail hrun hstep ih =>
    rcases hstep with hpass | ⟨i, probed, hhand⟩
    · rcases ih with hpasses | ⟨i, probed, mid, hmid, next, hhand, hpasses⟩
      · exact .inl (hpasses.tail hpass)
      · exact .inr ⟨i, probed, mid, hmid, next, hhand, hpasses.tail hpass⟩
    · exact .inr ⟨i, probed, _, hrun, _, hhand, .refl⟩

/-- An answer of a union is that of the alternative it passes the request on to. -/
theorem exists_passes_of_union {alternatives : List TypeId} {v : Value}
    (hshape : reg.shape r.id = .union alternatives) (hv : reg.answer limit r = .ok v) :
    ∃ s, reg.Passes limit r s ∧ reg.answer limit s = .ok v := by
  rw [answer_union hshape] at hv
  rcases firstAccepted_cases r.path (reg.exhausted r.id r.path r.source)
    (fun a => reg.answer limit (r.as a)) alternatives with
    ⟨before, a, after, rfl, hbefore, -, heq⟩ | ⟨-, heq⟩
  · exact ⟨_, .alternative hshape hbefore, heq ▸ hv⟩
  · rw [heq] at hv
    cases hv

/-- A request that a node answers is one for a product, or there is a step to another
request that the node answers. -/
theorem product_or_exists_settles {n : Node} (hn : reg.answer limit r = .ok n.toValue) :
    (∃ p, reg.shape r.id = .product p) ∨
      ∃ s, reg.Settles limit r s ∧ reg.answer limit s = .ok n.toValue := by
  cases hshape : reg.shape r.id with
  | primitive kind =>
    rw [answer_primitive hshape] at hn
    exact absurd (.here n) (of_translatePrimitive_eq_ok hn).2.not_occursIn
  | nameSet =>
    rw [answer_nameSet hshape] at hn
    obtain ⟨set, hset⟩ := of_translateNames_eq_ok hn
    cases hset
  | array item =>
    obtain ⟨items, values, -, hlist, -⟩ := of_answer_array_eq_ok hshape hn
    cases hlist
  | product p => exact .inl ⟨p, rfl⟩
  | nullable inner =>
    rcases of_answer_nullable_eq_ok hshape hn with ⟨-, hnull⟩ | ⟨hpresent, hanswer⟩
    · cases hnull
    · exact .inr ⟨_, .inl (.inner hshape hpresent), hanswer⟩
  | union alternatives =>
    obtain ⟨next, hpass, hnext⟩ := exists_passes_of_union hshape hn
    exact .inr ⟨next, .inl hpass, hnext⟩
  | inspect i =>
    obtain ⟨record, probed, arm, hrecord, hprobed, harm, hanswer⟩ :=
      of_answer_inspect_eq_ok hshape hn
    exact .inr ⟨_, .inr ⟨i, probed, .target hshape hrecord hprobed harm⟩, hanswer⟩

/-- A node that answers a request is the answer of a product at the same place. -/
theorem exists_product_of_answer : ∀ (r : Request) {n : Node},
    reg.answer limit r = .ok n.toValue → ∃ s p, ReflTransGen (reg.Settles limit) r s ∧
      reg.shape s.id = .product p ∧ reg.answer limit s = .ok n.toValue := by
  refine request_induction reg limit ?_
  intro r ih n hn
  rcases product_or_exists_settles hn with ⟨p, hshape⟩ | ⟨next, hstep, hnext⟩
  · exact ⟨r, p, .refl, hshape, hn⟩
  · obtain ⟨s, p, hrun, hs⟩ := ih next hstep.calls hnext
    exact ⟨s, p, .head hstep hrun, hs⟩

/-! ### Fields -/

theorem takePreset_eq_ok_iff {type : TypeId} {value v : Value} {path : Path} :
    reg.takePreset type value path = .ok v ↔ reg.isInstance type value = true ∧ v = value := by
  rw [takePreset]
  by_cases hinst : reg.isInstance type value = true
  · rw [if_pos hinst]
    constructor
    · intro h
      cases h
      exact ⟨hinst, rfl⟩
    · rintro ⟨-, rfl⟩
      rfl
  · rw [if_neg hinst]
    constructor
    · intro h
      cases h
    · exact fun h => absurd h.1 hinst

section

variable {record : Json.Record} {field : Field}

/-- A field takes what stands ready for its key. -/
theorem answerField_of_preset {preset : Preset} (hpreset : r.preset = some preset)
    (hkey : field.source = .key preset.key) :
    reg.answerField limit r record field =
      reg.takePreset field.type preset.value (r.path.field preset.key) := by
  rw [answerField, readField, hkey, hpreset]
  dsimp only
  rw [if_pos rfl]

/-- A field for which nothing stands ready is read as if nothing stood ready at all. -/
theorem answerField_without_preset
    (h : ∀ preset, r.preset = some preset → field.source ≠ .key preset.key) :
    reg.answerField limit r record field =
      reg.answerField limit r.withoutPreset record field := by
  have hread : reg.readField field record r.path r.preset =
      reg.readField field record r.path none := by
    rw [readField, readField]
    split
    · rfl
    · next key hkey =>
      cases hpreset : r.preset with
      | none => rfl
      | some preset =>
        dsimp only
        rw [if_neg]
        rintro rfl
        exact h preset hpreset hkey
  rw [answerField, answerField, hread]
  rfl

/-- Where a field is read matters, not as which type. -/
theorem answerField_of_samePlace (h : r.SamePlace s) (hpreset : s.preset = r.preset) :
    reg.answerField limit s record field = reg.answerField limit r record field := by
  rw [answerField, answerField, h.path, hpreset]
  cases reg.readField field record r.path r.preset with
  | settled result => rfl
  | translate source path =>
    dsimp only
    rw [Request.part, Request.part, h.depth]

/-- Where nothing stands ready, a field takes its default if it reads nothing or `null`, and is
translated from what it reads otherwise. -/
theorem answerField_cases (hpreset : r.preset = none) (record : Json.Record) (field : Field) :
    (∃ d, field.population = .default d ∧ (field.sourceIn record).all Json.isNull = true ∧
        reg.answerField limit r record field = .ok d) ∨
      (∀ d, field.population = .default d → (field.sourceIn record).all Json.isNull = false) ∧
        reg.answerField limit r record field = reg.answer limit
          (r.part field.type (field.sourceIn record) (r.path.field field.stepKey)) := by
  rw [answerField, hpreset]
  rcases readField_eq_takePreset_or_readSource reg field record r.path none with
    ⟨ready, hready, -⟩ | hread
  · cases hready
  · rw [hread]
    rcases readSource_cases field (field.sourceIn record) (r.path.field field.stepKey) with
      ⟨d, hd, hnull, heq⟩ | ⟨hpresent, heq⟩
    · rw [heq]
      exact .inl ⟨d, hd, hnull, rfl⟩
    · rw [heq]
      exact .inr ⟨hpresent, rfl⟩

/-- A field that has to be in the source is translated from what it reads. -/
theorem answerField_of_required (hfield : field.population = .required)
    (hready : ∀ preset, r.preset = some preset → field.source ≠ .key preset.key) :
    reg.answerField limit r record field = reg.answer limit
      (r.part field.type (field.sourceIn record) (r.path.field field.stepKey)) := by
  rw [answerField_without_preset hready]
  rcases @answerField_cases reg limit r.withoutPreset rfl record field with
    ⟨d, hd, -⟩ | ⟨-, heq⟩
  · rw [hfield] at hd
    cases hd
  · exact heq

/-- A field with a default takes it if its key is missing or `null`. -/
theorem answerField_of_default {key : String} {d : Value} (hpreset : r.preset = none)
    (hkey : field.source = .key key) (hdefault : field.population = .default d)
    (hnull : (record.get? key).all Json.isNull = true) :
    reg.answerField limit r record field = .ok d := by
  rw [answerField, readField, hkey, hpreset]
  dsimp only
  rw [readSource, hdefault]
  dsimp only
  rw [if_pos hnull]

/-- A key that is there is translated as the type of its field. -/
theorem answerField_of_present {key : String} (hpreset : r.preset = none)
    (hkey : field.source = .key key) (hpresent : (record.get? key).all Json.isNull = false) :
    reg.answerField limit r record field =
      reg.answer limit (r.part field.type (record.get? key) (r.path.field key)) := by
  rw [answerField, readField, hkey, hpreset]
  dsimp only
  rcases readSource_cases field (record.get? key) (r.path.field key) with
    ⟨d, -, hnull, -⟩ | ⟨-, heq⟩
  · rw [hpresent] at hnull
    cases hnull
  · rw [heq]

/-- A value made from the record that is not `null` is translated as the type of its field. -/
theorem answerField_of_extract {e : Extraction} (hsource : field.source = .extract e)
    (hpresent : (e.apply record).isNull = false) :
    reg.answerField limit r record field =
      reg.answer limit (r.part field.type (some (e.apply record)) (r.path.field e.pathKey)) := by
  rw [answerField, readField, hsource]
  dsimp only
  rcases readSource_cases field (some (e.apply record)) (r.path.field e.pathKey) with
    ⟨d, -, hnull, -⟩ | ⟨-, heq⟩
  · rw [Option.all_some, hpresent] at hnull
    cases hnull
  · rw [heq]

end

theorem isComputed_of_required {field : Field} (h : field.population = .required) :
    field.isComputed = false := by
  rw [Field.isComputed, Field.rule?, h]
  rfl

/-! ### Nodes built from records -/

/-- A product answers with a node of its type. -/
theorem exists_node_of_type {p : Product} {v : Value} (hshape : reg.shape r.id = .product p)
    (hv : reg.answer limit r = .ok v) : ∃ n : Node, v = n.toValue ∧ n.id = r.id := by
  obtain ⟨record, slots, -, -, -, rfl⟩ := of_answer_product_eq_ok hshape hv
  exact ⟨⟨r.id, reg.name r.id, p.complete (reg.plan r.id) slots, Metadata.ofRecord? record⟩, rfl,
    rfl⟩

theorem exists_node_of_product {p : Product} {v : Value} (hshape : reg.shape r.id = .product p)
    (hv : reg.answer limit r = .ok v) : ∃ n : Node, v = n.toValue :=
  (exists_node_of_type hshape hv).imp fun _ => And.left

/-- A product answers if its pattern admits the record, there is room for a node, and every
field that is not computed has a value. -/
theorem exists_answer_product_iff {p : Product} {record : Json.Record}
    (hshape : reg.shape r.id = .product p) (hsource : r.source = some (.obj record)) :
    (∃ v, reg.answer limit r = .ok v) ↔ p.source.Admits record ∧ r.depth < limit ∧
      ∀ field ∈ p.fields, field.isComputed = false →
        ∃ v, reg.answerField limit r record field = .ok v := by
  constructor
  · rintro ⟨v, hv⟩
    obtain ⟨found, slots, hfound, hdepth, hslots, -⟩ := of_answer_product_eq_ok hshape hv
    obtain ⟨heq, hadmits⟩ := matchRecord_eq_ok_iff.mp hfound
    rw [hsource] at heq
    cases heq
    refine ⟨hadmits, hdepth, fun field hmem hcomp => ?_⟩
    obtain ⟨slot, -, hslot⟩ := exists_of_forall₂_of_mem_left hslots hmem
    rw [Supplies, if_neg (by simp [hcomp])] at hslot
    obtain ⟨v, -, hv⟩ := hslot
    exact ⟨v, hv⟩
  · rintro ⟨hadmits, hdepth, hfields⟩
    obtain ⟨slots, hslots⟩ : ∃ slots,
        List.Forall₂ (reg.Supplies limit r record) p.fields slots := by
      refine exists_forall₂_of_mem fun field hmem => ?_
      by_cases hcomp : field.isComputed = true
      · exact ⟨none, by rw [Supplies, if_pos hcomp]⟩
      · obtain ⟨v, hv⟩ := hfields field hmem (by simpa using hcomp)
        exact ⟨some v, by rw [Supplies, if_neg hcomp]; exact ⟨v, rfl, hv⟩⟩
    exact ⟨_, answer_product_of_supplies hshape
      (matchRecord_eq_ok_iff.mpr ⟨hsource, hadmits⟩) hdepth hslots⟩

/-- A node is built from a record as a product: the pattern admits the record, there is room
for a node, and every field that is not computed holds the value that was read for it. -/
structure Builds (reg : Registry) (limit : Nat) (r : Request) (record : Json.Record)
    (p : Product) (n : Node) : Prop where
  shape : reg.shape r.id = .product p
  id : n.id = r.id
  source : r.source = some (.obj record)
  admits : p.source.Admits record
  within : r.depth < limit
  answer : reg.answer limit r = .ok n.toValue
  field : ∀ {field}, field ∈ p.fields → field.isComputed = false →
    ∃ v, n.get? field.name = some v ∧ reg.answerField limit r record field = .ok v

theorem Supplies.supplied {p : Product} {record : Json.Record} {slots : List (Option Value)}
    (h : List.Forall₂ (reg.Supplies limit r record) p.fields slots) :
    p.Supplied (fun field v => reg.answerField limit r record field = .ok v) slots :=
  h.imp fun _ _ hslot => hslot

/-- The node that answers for a product is built from a record. -/
theorem exists_builds_of_product (hplan : reg.Planned) {p : Product} {n : Node}
    (hshape : reg.shape r.id = .product p) (hn : reg.answer limit r = .ok n.toValue) :
    ∃ record, reg.Builds limit r record p n := by
  obtain ⟨record, slots, hrecord, hdepth, hslots, heq⟩ := of_answer_product_eq_ok hshape hn
  obtain ⟨hsource, hadmits⟩ := matchRecord_eq_ok_iff.mp hrecord
  obtain rfl : n = ⟨r.id, reg.name r.id, p.complete (reg.plan r.id) slots,
      Metadata.ofRecord? record⟩ := by
    cases n
    cases heq
    rfl
  exact ⟨record, hshape, rfl, hsource, hadmits, hdepth, hn, fun hmem hcomp =>
    Product.exists_lookup_complete (hplan hshape) (Supplies.supplied hslots) hmem hcomp⟩

/-- The record is the one that was asked for. -/
theorem builds_of_product (hplan : reg.Planned) {p : Product} {n : Node} {record : Json.Record}
    (hshape : reg.shape r.id = .product p) (hsource : r.source = some (.obj record))
    (hn : reg.answer limit r = .ok n.toValue) : reg.Builds limit r record p n := by
  obtain ⟨found, hbuilds⟩ := exists_builds_of_product hplan hshape hn
  have heq := hbuilds.source
  rw [hsource] at heq
  cases heq
  exact hbuilds

/-- A node that answers a request is built at the same place. -/
theorem exists_builds_of_answer (hplan : reg.Planned) {n : Node}
    (hn : reg.answer limit r = .ok n.toValue) :
    ∃ s p record, ReflTransGen (reg.Settles limit) r s ∧ reg.Builds limit s record p n := by
  obtain ⟨s, p, hrun, hshape, hs⟩ := exists_product_of_answer r hn
  obtain ⟨record, hbuilds⟩ := exists_builds_of_product hplan hshape hs
  exact ⟨s, p, record, hrun, hbuilds⟩

end Registry

end TypedTree
