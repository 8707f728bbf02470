/-
Fields with a default whose key is missing or `null`.

Main statements:

* `Registry.Grants` — a field holds a value in every node that is built, and is not what
  keeps a node from being built;
* `Registry.null_of_answer` — a source that is missing or `null` is translated as `null`;
* `Registry.default_of_missing` — a field with a default takes it, unless an inspect shape
  has probed its key: then it takes the `null` that was probed, or the product fails;
* `Registry.default_skipped` — both happen.

Design notes: a field looks for a value that stands ready before it looks at its source, so
the probed `null` comes before the default.
-/
import TypedTree.Proofs.Translation.Run

namespace TypedTree

namespace Registry

variable {reg : Registry} {limit : Nat} {s root : Request} {p : Product}
  {record : Json.Record} {field : Field}

/-! ### Sources that are missing or null -/

/-- What a missing source or `null` is translated as. -/
theorem null_of_answer : ∀ (r : Request) {v : Value}, r.source.all Json.isNull = true →
    reg.answer limit r = .ok v → v = .null ∨ v = .any .null := by
  refine request_induction reg limit ?_
  intro r ih v hnull hv
  -- Lists, sets, products and inspect shapes ask for an array or a record.
  have hsource : r.source = none ∨ r.source = some .null := by
    cases hs : r.source with
    | none => exact .inl rfl
    | some source =>
      rw [hs] at hnull
      cases source <;> simp [Json.isNull] at hnull
      exact .inr rfl
  cases hshape : reg.shape r.id with
  | primitive kind =>
    rw [answer_primitive hshape] at hv
    rcases hsource with hs | hs <;> rw [hs] at hv <;> cases kind <;> cases hv <;>
      simp [Value.ofLiteral]
  | nameSet =>
    rw [answer_nameSet hshape] at hv
    rcases hsource with hs | hs <;> rw [hs] at hv <;> cases hv
  | array item =>
    obtain ⟨items, values, hitems, -, -⟩ := of_answer_array_eq_ok hshape hv
    rw [hitems] at hnull
    cases hnull
  | nullable inner =>
    rcases of_answer_nullable_eq_ok hshape hv with ⟨-, rfl⟩ | ⟨hpresent, -⟩
    · exact .inl rfl
    · rw [hnull] at hpresent
      cases hpresent
  | union alternatives =>
    obtain ⟨next, hpass, hnext⟩ := exists_passes_of_union hshape hv
    have hcall : reg.Settles limit r next := .inl hpass
    exact ih next hcall.calls (by rwa [hcall.samePlace.source]) hnext
  | product p =>
    obtain ⟨record, slots, hrecord, -⟩ := of_answer_product_eq_ok hshape hv
    rw [(matchRecord_eq_ok_iff.mp hrecord).1] at hnull
    cases hnull
  | inspect i =>
    obtain ⟨record, probed, arm, hrecord, -⟩ := of_answer_inspect_eq_ok hshape hv
    rw [eq_of_inspectable? hrecord] at hnull
    cases hnull

/-! ### Fields that do not fail -/

/-- A field holds a value in every node that a product answers with, and the product answers
as soon as its pattern admits the record, there is room for a node, and the other fields have
values. -/
def Grants (reg : Registry) (limit : Nat) (s : Request) (p : Product) (record : Json.Record)
    (field : Field) (v : Value) : Prop :=
  (∀ n : Node, reg.answer limit s = .ok n.toValue → n.get? field.name = some v) ∧
    ((∃ w, reg.answer limit s = .ok w) ↔ p.source.Admits record ∧ s.depth < limit ∧
      ∀ other ∈ p.fields, other.isComputed = false → other ≠ field →
        ∃ w, reg.answerField limit s record other = .ok w)

theorem grants_of_answerField (hplan : reg.Planned) (hshape : reg.shape s.id = .product p)
    (hsource : s.source = some (.obj record)) (hmem : field ∈ p.fields)
    (hcomp : field.isComputed = false) {v : Value}
    (hv : reg.answerField limit s record field = .ok v) :
    reg.Grants limit s p record field v := by
  constructor
  · intro n hn
    obtain ⟨w, hw, hanswer⟩ := (builds_of_product hplan hshape hsource hn).field hmem hcomp
    rw [hv] at hanswer
    cases hanswer
    exact hw
  · rw [exists_answer_product_iff hshape hsource]
    refine and_congr_right fun _ => and_congr_right fun _ => ?_
    constructor
    · exact fun h other hother hc _ => h other hother hc
    · intro h other hother hc
      by_cases heq : other = field
      · exact ⟨v, heq ▸ hv⟩
      · exact h other hother hc heq

/-- A field with a default whose key is missing or `null` takes the default and cannot fail,
if no inspect shape hands down a value for the key. If one does, the value is `null`, which
the field takes if its type has it; else the product fails. -/
theorem default_of_missing {b : Builder} (hb : b.freeze = .ok reg) (hroot : root.preset = none)
    (hrun : reg.Reaches limit root s) (hshape : reg.shape s.id = .product p)
    (hsource : s.source = some (.obj record)) (hmem : field ∈ p.fields) {d : Value} {key : String}
    (hdefault : field.population = .default d) (hkey : field.source = .key key)
    (hnull : (record.get? key).all Json.isNull = true) :
    ((∀ i probed mid, reg.Reaches limit root mid → reg.HandsDown limit i probed mid s →
        i.field ≠ key) → reg.Grants limit s p record field d) ∧
    ∀ i probed mid, reg.HandsDown limit i probed mid s → i.field = key →
      reg.answer limit (s.probe i record) = .ok probed ∧
      (probed = .null ∨ probed = .any .null) ∧
      (reg.isInstance field.type probed = true → reg.Grants limit s p record field probed) ∧
      (reg.isInstance field.type probed = false → ∀ v, reg.answer limit s ≠ .ok v) := by
  have hplan : reg.Planned := Builder.planned_of_freeze hb
  have hcomp : field.isComputed = false := by simp [Field.isComputed, Field.rule?, hdefault]
  -- What stands ready comes before the default, so the two parts differ in whether something does.
  constructor
  · intro hnone
    refine grants_of_answerField hplan hshape hsource hmem hcomp ?_
    rw [answerField_without_preset, answerField_of_default rfl hkey hdefault hnull]
    intro preset hpreset hkey'
    obtain ⟨i, mid, hmid, hhand, hfield⟩ := exists_handsDown_of_preset hroot hrun hpreset
    rw [hkey] at hkey'
    cases hkey'
    exact hnone i preset.value mid hmid hhand hfield.symm
  · rintro i probed mid hhand rfl
    have hprobe := hhand.answer_probe hsource
    have htake : reg.answerField limit s record field =
        reg.takePreset field.type probed (s.path.field i.field) :=
      answerField_of_preset hhand.preset_eq hkey
    refine ⟨hprobe, null_of_answer _ hnull hprobe, fun hinst => ?_, fun hinst v hv => ?_⟩
    · exact grants_of_answerField hplan hshape hsource hmem hcomp
        (htake.trans (takePreset_eq_ok_iff.mpr ⟨hinst, rfl⟩))
    · obtain ⟨-, -, hfields⟩ := (exists_answer_product_iff hshape hsource).mp ⟨v, hv⟩
      obtain ⟨w, hw⟩ := hfields field hmem hcomp
      rw [htake, takePreset_eq_ok_iff, hinst] at hw
      cases hw.1

/-! ### Probes that accept null -/

/-- A field with 7 for its default. -/
def sevenUnless (type : TypeId) : Field := .withDefault "value" type (.number (.int 7))

/-- Two products with a default under one key, one whose field has `null` and one whose field
has not, and inspect shapes that probe the key and accept `null`. -/
def nullProbes : Builder := { declarations := [
  { name := "number", body := some (.primitive .number) },
  { name := "Nullable<number>", body := some (.nullable ⟨0⟩) },
  { name := "Plain", body := some (.product {
      source := { tag := "T" }, fields := [sevenUnless ⟨0⟩] }) },
  { name := "Pick", body := some (.inspect {
      field := "value", probe := ⟨1⟩, arms := [⟨⟨1⟩, ⟨2⟩⟩] }) },
  { name := "Lenient", body := some (.product {
      source := { tag := "T" }, fields := [sevenUnless ⟨1⟩] }) },
  { name := "PickLenient", body := some (.inspect {
      field := "value", probe := ⟨1⟩, arms := [⟨⟨1⟩, ⟨4⟩⟩] }) }] }

/-- The request for a record without the key, with what may stand ready. -/
def requestOfTag (id : TypeId) (preset : Option Preset) : Request :=
  ⟨id, some (.obj [("type", .str "T")]), .root, preset, 0⟩

theorem exists_nullProbes : ∃ reg, nullProbes.freeze = .ok reg ∧
    ∀ id, reg.shape id = (nullProbes.body? id).getD (.union []) :=
  Builder.exists_freeze_of_check (by decide +kernel)

theorem answerField_sevenUnless {id type : TypeId} :
    reg.answerField limit (requestOfTag id (some ⟨"value", .null⟩)) record (sevenUnless type) =
      reg.takePreset type .null (Path.root.field "value") := by
  rw [answerField_of_preset rfl rfl]
  rfl

section

variable (hshape : ∀ id, reg.shape id = (nullProbes.body? id).getD (.union []))
include hshape

theorem isInstance_null_nullProbes :
    reg.isInstance ⟨1⟩ .null = true ∧ reg.isInstance ⟨0⟩ .null = false := by
  constructor
  · rw [isInstance_eq, hshape]
    rfl
  · rw [isInstance_eq, hshape]
    rfl

/-- An inspect shape probes `null` and hands it to its target. -/
theorem hands_nullProbes {id target : TypeId}
    (hinspect : reg.shape id = .inspect {
      field := "value", probe := ⟨1⟩, arms := [⟨⟨1⟩, target⟩] })
    (hbuilds : reg.buildsFrom "T" target = true) :
    reg.Hands 1 { field := "value", probe := ⟨1⟩, arms := [⟨⟨1⟩, target⟩] } .null
      (requestOfTag id none) (requestOfTag target (some ⟨"value", .null⟩)) := by
  refine @Hands.target _ _ _ _ _ [("type", .str "T")] ⟨⟨1⟩, target⟩ hinspect
    (inspectable?_eq_some rfl rfl List.mem_cons_self hbuilds) ?_ ?_
  · rw [answer_nullable (hshape ⟨1⟩)]
    rfl
  · simp [(isInstance_null_nullProbes hshape).1]

theorem hands_plain_and_lenient :
    reg.Hands 1 { field := "value", probe := ⟨1⟩, arms := [⟨⟨1⟩, ⟨2⟩⟩] } .null
        (requestOfTag ⟨3⟩ none) (requestOfTag ⟨2⟩ (some ⟨"value", .null⟩)) ∧
      reg.Hands 1 { field := "value", probe := ⟨1⟩, arms := [⟨⟨1⟩, ⟨4⟩⟩] } .null
        (requestOfTag ⟨5⟩ none) (requestOfTag ⟨4⟩ (some ⟨"value", .null⟩)) := by
  constructor
  · refine hands_nullProbes hshape (hshape ⟨3⟩) ?_
    rw [buildsFrom_eq, hshape]
    rfl
  · refine hands_nullProbes hshape (hshape ⟨5⟩) ?_
    rw [buildsFrom_eq, hshape]
    rfl

end

/-- A default that is taken, and one before which comes the `null` that was probed. -/
theorem default_of_missing_lenient : ∃ reg, nullProbes.freeze = .ok reg ∧
    reg.Grants 1 (requestOfTag ⟨4⟩ none) ⟨{ tag := "T" }, [sevenUnless ⟨1⟩]⟩
      [("type", .str "T")] (sevenUnless ⟨1⟩) (.number (.int 7)) ∧
    reg.Grants 1 (requestOfTag ⟨4⟩ (some ⟨"value", .null⟩)) ⟨{ tag := "T" }, [sevenUnless ⟨1⟩]⟩
      [("type", .str "T")] (sevenUnless ⟨1⟩) .null := by
  obtain ⟨reg, hreg, hshape⟩ := exists_nullProbes
  have hhand := (hands_plain_and_lenient hshape).2
  refine ⟨reg, hreg, ?_, ?_⟩
  · refine (default_of_missing hreg rfl .refl (hshape ⟨4⟩) rfl List.mem_cons_self rfl rfl
      rfl).1 ?_
    intro i probed mid _ hdown
    cases hdown.preset_eq
  · exact ((default_of_missing hreg rfl (.single (.settles (.inr ⟨_, _, hhand⟩))) (hshape ⟨4⟩)
      rfl List.mem_cons_self rfl rfl rfl).2 _ _ _ ⟨_, hhand, .refl⟩ rfl).2.2.1
      (isInstance_null_nullProbes hshape).1

/-- Behind an inspect shape, a field with a default may hold `null` instead, and a product
may fail for no other reason than that a key is missing. -/
theorem default_skipped :
    (¬ ∀ (b : Builder) (reg : Registry) (limit : Nat) (root s : Request) (record : Json.Record)
      (p : Product) (n : Node) (field : Field) (d : Value) (key : String), b.freeze = .ok reg →
      root.preset = none → reg.Reaches limit root s → reg.Builds limit s record p n →
      field ∈ p.fields → field.population = .default d → field.source = .key key →
      (record.get? key).all Json.isNull = true → n.get? field.name = some d) ∧
    ¬ ∀ (b : Builder) (reg : Registry) (limit : Nat) (root s : Request) (record : Json.Record)
      (p : Product) (field : Field) (d : Value) (key : String), b.freeze = .ok reg →
      root.preset = none → reg.Reaches limit root s → reg.shape s.id = .product p →
      s.source = some (.obj record) → p.source.Admits record → s.depth < limit →
      field ∈ p.fields → field.population = .default d → field.source = .key key →
      (record.get? key).all Json.isNull = true →
      (∀ other ∈ p.fields, other.isComputed = false → other ≠ field →
        ∃ v, reg.answerField limit s record other = .ok v) →
      ∃ v, reg.answer limit s = .ok v := by
  obtain ⟨reg, hreg, hshape⟩ := exists_nullProbes
  obtain ⟨hplain, hlenient⟩ := hands_plain_and_lenient hshape
  obtain ⟨hnull, hnumber⟩ := isInstance_null_nullProbes hshape
  constructor
  · intro h
    have hfield : reg.answerField 1 (requestOfTag ⟨4⟩ (some ⟨"value", .null⟩))
        [("type", .str "T")] (sevenUnless ⟨1⟩) = .ok .null :=
      answerField_sevenUnless.trans (takePreset_eq_ok_iff.mpr ⟨hnull, rfl⟩)
    -- The lenient product takes the `null` that was probed, and not its default.
    obtain ⟨v, hv⟩ : ∃ v, reg.answer 1 (requestOfTag ⟨4⟩ (some ⟨"value", .null⟩)) = .ok v := by
      refine (exists_answer_product_iff (hshape ⟨4⟩) rfl).mpr
        ⟨⟨rfl, fun _ hentry => nomatch hentry⟩, Nat.one_pos, ?_⟩
      intro field hmem _
      rw [List.mem_singleton.mp hmem]
      exact ⟨_, hfield⟩
    obtain ⟨n, rfl⟩ := exists_node_of_product (hshape ⟨4⟩) hv
    have hbuilds := builds_of_product (Builder.planned_of_freeze hreg) (hshape ⟨4⟩) rfl hv
    obtain ⟨w, hw, hanswer⟩ := hbuilds.field List.mem_cons_self rfl
    rw [hfield] at hanswer
    cases hanswer
    have hseven := h _ reg 1 _ _ _ _ n _ _ _ hreg rfl
      (.single (.settles (.inr ⟨_, _, hlenient⟩))) hbuilds List.mem_cons_self rfl rfl rfl
    cases hw.symm.trans hseven
  · intro h
    obtain ⟨v, hv⟩ := h _ reg 1 _ _ [("type", .str "T")] _ (sevenUnless ⟨0⟩) _ "value" hreg rfl
      (.single (.settles (.inr ⟨_, _, hplain⟩))) (hshape ⟨2⟩) rfl
      ⟨rfl, fun _ hentry => nomatch hentry⟩ Nat.one_pos List.mem_cons_self rfl rfl rfl
      (fun other hother _ hne => absurd (List.mem_singleton.mp hother) hne)
    obtain ⟨-, -, hfields⟩ := (exists_answer_product_iff (hshape ⟨2⟩) rfl).mp ⟨v, hv⟩
    obtain ⟨w, hw⟩ := hfields _ List.mem_cons_self rfl
    rw [answerField_sevenUnless, takePreset_eq_ok_iff, hnumber] at hw
    cases hw.1

end Registry

end TypedTree
