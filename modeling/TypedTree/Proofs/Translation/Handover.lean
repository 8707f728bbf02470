/-
Values that inspect shapes hand over.

Main statements:

* `Registry.inspect_hands_over` — a node that is built behind an inspect shape holds the
  probed value of the last inspect shape on the way in every field for its key, and every
  other field is translated on its own; that inspect shape is the first one if no other one
  can be reached behind it;
* `Registry.inspect_translates_again` — the value that an inspect shape probed is lost where
  another one stands behind it.

Design notes: there is room for one value that stands ready. Nullables and unions pass it on,
and an inspect shape puts its own in its place.
-/
import TypedTree.Proofs.Translation.Construction

namespace TypedTree

namespace Registry

open Relation (ReflTransGen)

variable {reg : Registry} {limit : Nat} {r s : Request} {i : Inspect}

/-! ### Behind an inspect shape -/

theorem not_passes_of_inspect (hshape : reg.shape r.id = .inspect i)
    (h : ReflTransGen (reg.Passes limit) r s) : s = r := by
  rcases h.cases_head with heq | ⟨next, hpass, -⟩
  · exact heq.symm
  · exact absurd hshape hpass.shape_ne_inspect

/-- The way on from an inspect shape goes through a target. -/
theorem eq_or_exists_target (hshape : reg.shape r.id = .inspect i)
    (h : ReflTransGen (reg.Settles limit) r s) :
    s = r ∨ ∃ arm ∈ i.arms, reg.SamePath arm.target s.id := by
  rcases h.cases_head with heq | ⟨next, hstep, hrest⟩
  · exact .inl heq.symm
  · have hmem := hstep.mem_samePath
    rw [hshape] at hmem
    obtain ⟨arm, harm, heq⟩ := List.mem_map.mp hmem
    exact .inr ⟨arm, harm, heq ▸ samePath_of_settles hrest⟩

/-- The fields of a node that is built where a probed value stands ready. -/
theorem Builds.field_of_handsDown {record : Json.Record} {p : Product} {n : Node}
    {probed : Value} (h : reg.Builds limit s record p n)
    (hhand : reg.HandsDown limit i probed r s) {field : Field} (hmem : field ∈ p.fields)
    (hcomp : field.isComputed = false) :
    (field.source = .key i.field →
      n.get? field.name = some probed ∧ reg.isInstance field.type probed = true) ∧
    (field.source ≠ .key i.field → ∃ v, n.get? field.name = some v ∧
      reg.answerField limit r.withoutPreset record field = .ok v) := by
  obtain ⟨v, hv, hanswer⟩ := h.field hmem hcomp
  constructor
  · intro hkey
    rw [answerField_of_preset hhand.preset_eq hkey, takePreset_eq_ok_iff] at hanswer
    obtain ⟨hinst, rfl⟩ := hanswer
    exact ⟨hv, hinst⟩
  · intro hkey
    refine ⟨v, hv, ?_⟩
    rw [answerField_without_preset] at hanswer
    · rwa [answerField_of_samePlace hhand.samePlace.withoutPreset rfl] at hanswer
    · intro preset hpreset
      rw [hhand.preset_eq] at hpreset
      cases hpreset
      exact hkey

/-- A node that is built behind an inspect shape holds the probed value of the last inspect
shape on the way in every field that reads its key. Every other field holds what it would
hold if nothing had been probed. If no inspect shape can be reached from the targets of the
first one, the last one is the first one. -/
theorem inspect_hands_over {b : Builder} (hb : b.freeze = .ok reg)
    (hshape : reg.shape r.id = .inspect i) {n : Node}
    (hn : reg.answer limit r = .ok n.toValue) :
    ∃ (record : Json.Record) (last : Inspect) (probed : Value) (mid s : Request) (p : Product),
      ReflTransGen (reg.Settles limit) r mid ∧ reg.HandsDown limit last probed mid s ∧
      reg.Builds limit s record p n ∧ reg.answer limit (r.probe last record) = .ok probed ∧
      (∀ field ∈ p.fields, field.isComputed = false →
        (field.source = .key last.field →
          n.get? field.name = some probed ∧ reg.isInstance field.type probed = true) ∧
        (field.source ≠ .key last.field → ∃ v, n.get? field.name = some v ∧
          reg.answerField limit r.withoutPreset record field = .ok v)) ∧
      ((∀ arm ∈ i.arms, ∀ id, reg.SamePath arm.target id → ∀ j, reg.shape id ≠ .inspect j) →
        mid = r ∧ last = i) := by
  obtain ⟨s, p, record, hrun, hbuilds⟩ :=
    exists_builds_of_answer (Builder.planned_of_freeze hb) hn
  rcases passes_or_exists_handsDown hrun with hpasses | ⟨last, probed, mid, hmid, hhand⟩
  · -- An inspect shape passes nothing on, and it is no product itself.
    have hproduct := hbuilds.shape
    rw [not_passes_of_inspect hshape hpasses, hshape] at hproduct
    cases hproduct
  · have hplace := samePlace_of_settles hmid
    refine ⟨record, last, probed, mid, s, p, hmid, hhand, hbuilds, ?_, ?_, ?_⟩
    · have hprobe := hhand.answer_probe hbuilds.source
      have hall := hplace.trans hhand.samePlace
      rwa [Request.probe, Request.part, hall.path, hall.depth] at hprobe
    · -- The fields are read with the preset of the last inspect shape alone.
      intro field hmem hcomp
      have hfield := hbuilds.field_of_handsDown hhand hmem hcomp
      rwa [answerField_of_samePlace hplace.withoutPreset rfl] at hfield
    · intro hnone
      obtain ⟨next, htarget, -⟩ := hhand
      rcases eq_or_exists_target hshape hmid with rfl | ⟨arm, harm, hpath⟩
      · have hlast := htarget.shape
        rw [hshape] at hlast
        cases hlast
        exact ⟨rfl, rfl⟩
      · exact absurd htarget.shape (hnone arm harm mid.id hpath last)

/-! ### One inspect shape behind another -/

/-- A product of two keys, and two inspect shapes on the way to it, one for each key. -/
def twoProbes : Builder := { declarations := [
  { name := "string", body := some (.primitive .string) },
  { name := "any", body := some (.primitive .any) },
  { name := "Leaf", body := some (.product {
      source := { tag := "T" }, fields := [.required "a" ⟨1⟩, .required "b" ⟨0⟩] }) },
  { name := "Inner", body := some (.inspect {
      field := "b", probe := ⟨0⟩, arms := [⟨⟨0⟩, ⟨2⟩⟩] }) },
  { name := "Outer", body := some (.inspect {
      field := "a", probe := ⟨0⟩, arms := [⟨⟨0⟩, ⟨3⟩⟩] }) }] }

/-- A record with strings under both keys. -/
def twoStrings : Json.Record := [("type", .str "T"), ("a", .str "x"), ("b", .str "y")]

/-- The request for the record, with what may stand ready. -/
def requestOfStrings (id : TypeId) (preset : Option Preset) : Request :=
  ⟨id, some (.obj twoStrings), .root, preset, 0⟩

theorem exists_twoProbes : ∃ reg, twoProbes.freeze = .ok reg ∧
    ∀ id, reg.shape id = (twoProbes.body? id).getD (.union []) :=
  Builder.exists_freeze_of_check (by decide +kernel)

section

variable (hshape : ∀ id, reg.shape id = (twoProbes.body? id).getD (.union []))
include hshape

/-- The outer inspect shape hands the value of one key to the inner one, and that hands the
value of the other key to the product. -/
theorem hands_twoProbes :
    reg.Hands 1 { field := "a", probe := ⟨0⟩, arms := [⟨⟨0⟩, ⟨3⟩⟩] } (.string "x")
      (requestOfStrings ⟨4⟩ none) (requestOfStrings ⟨3⟩ (some ⟨"a", .string "x"⟩)) ∧
    reg.Hands 1 { field := "b", probe := ⟨0⟩, arms := [⟨⟨0⟩, ⟨2⟩⟩] } (.string "y")
      (requestOfStrings ⟨3⟩ (some ⟨"a", .string "x"⟩))
      (requestOfStrings ⟨2⟩ (some ⟨"b", .string "y"⟩)) := by
  have hinner : reg.buildsFrom "T" ⟨2⟩ = true := by
    rw [buildsFrom_eq, hshape]
    rfl
  have houter : reg.buildsFrom "T" ⟨3⟩ = true := by
    rw [buildsFrom_eq, hshape]
    simpa [twoProbes, Builder.body?, Builder.declaration?, Shape.asProduct?, Shape.samePath]
      using hinner
  have hstring : ∀ text, reg.isInstance ⟨0⟩ (.string text) = true := by
    intro text
    rw [isInstance_eq, hshape]
    rfl
  have hprobe : ∀ text path preset, reg.answer 1 ⟨⟨0⟩, some (.str text), path, preset, 1⟩ =
      .ok (.string text) := by
    intro text path preset
    rw [answer_primitive (hshape ⟨0⟩)]
    rfl
  constructor
  · refine @Hands.target _ _ _ _ _ twoStrings ⟨⟨0⟩, ⟨3⟩⟩ (hshape ⟨4⟩)
      (inspectable?_eq_some rfl rfl List.mem_cons_self houter) (hprobe ..) ?_
    simp [hstring]
  · refine @Hands.target _ _ _ _ _ twoStrings ⟨⟨0⟩, ⟨2⟩⟩ (hshape ⟨3⟩)
      (inspectable?_eq_some rfl rfl List.mem_cons_self hinner) (hprobe ..) ?_
    simp [hstring]

/-- Only the key of the inner inspect shape is ready, so the other key is read again. -/
theorem answerField_twoProbes :
    reg.answerField 1 (requestOfStrings ⟨2⟩ (some ⟨"b", .string "y"⟩)) twoStrings
      (.required "a" ⟨1⟩) = .ok (.any (.str "x")) := by
  rw [answerField_without_preset, answerField_of_present rfl rfl rfl,
    answer_primitive (hshape ⟨1⟩)]
  · rfl
  · intro preset hpreset
    cases hpreset
    simp [Field.required]

/-- The product answers for both inspect shapes. -/
theorem exists_node_twoProbes :
    ∃ n : Node, reg.answer 1 (requestOfStrings ⟨4⟩ none) = .ok n.toValue ∧
      reg.answer 1 (requestOfStrings ⟨2⟩ (some ⟨"b", .string "y"⟩)) =
        .ok n.toValue := by
  obtain ⟨houter, hinner⟩ := hands_twoProbes hshape
  rw [houter.answer_eq, hinner.answer_eq]
  have hstring : reg.isInstance ⟨0⟩ (.string "y") = true := by
    rw [isInstance_eq, hshape]
    rfl
  have hready : reg.answerField 1 (requestOfStrings ⟨2⟩ (some ⟨"b", .string "y"⟩))
      twoStrings (.required "b" ⟨0⟩) = .ok (.string "y") := by
    rw [answerField_of_preset rfl rfl]
    exact takePreset_eq_ok_iff.mpr ⟨hstring, rfl⟩
  obtain ⟨v, hv⟩ : ∃ v, reg.answer 1
      (requestOfStrings ⟨2⟩ (some ⟨"b", .string "y"⟩)) = .ok v := by
    refine (exists_answer_product_iff (hshape ⟨2⟩) rfl).mpr
      ⟨⟨rfl, fun _ hentry => nomatch hentry⟩, Nat.one_pos, ?_⟩
    intro field hmem _
    rcases List.mem_pair.mp hmem with rfl | rfl
    · exact ⟨_, answerField_twoProbes hshape⟩
    · exact ⟨_, hready⟩
  obtain ⟨n, rfl⟩ := exists_node_of_product (hshape ⟨2⟩) hv
  exact ⟨n, hv, hv⟩

end

/-- The value of the inner inspect shape gets to the product behind two of them. -/
theorem inspect_hands_over_inner : ∃ (reg : Registry) (n : Node), twoProbes.freeze = .ok reg ∧
    reg.shape ⟨4⟩ = .inspect { field := "a", probe := ⟨0⟩, arms := [⟨⟨0⟩, ⟨3⟩⟩] } ∧
    reg.answer 1 (requestOfStrings ⟨4⟩ none) = .ok n.toValue ∧
    ∃ (last : Inspect) (record : Json.Record) (probed : Value) (s : Request) (p : Product),
      reg.answer 1 ((requestOfStrings ⟨4⟩ none).probe last record) = .ok probed ∧
      reg.Builds 1 s record p n ∧ ∀ field ∈ p.fields, field.isComputed = false →
        field.source = .key last.field → n.get? field.name = some probed := by
  obtain ⟨reg, hreg, hshape⟩ := exists_twoProbes
  obtain ⟨n, hn, -⟩ := exists_node_twoProbes hshape
  obtain ⟨record, last, probed, mid, s, p, -, -, hbuilds, hprobe, hfields, -⟩ :=
    inspect_hands_over hreg (hshape ⟨4⟩) hn
  exact ⟨reg, n, hreg, hshape ⟨4⟩, hn, last, record, probed, s, p, hprobe, hbuilds,
    fun field hmem hcomp hkey => ((hfields field hmem hcomp).1 hkey).1⟩

/-- Behind another inspect shape, the value that an inspect shape probed is lost: the field
for its key is translated again. -/
theorem inspect_translates_again :
    ¬ ∀ (b : Builder) (reg : Registry) (limit : Nat) (r : Request) (i : Inspect)
      (record : Json.Record) (probed : Value) (n : Node) (p : Product) (field : Field),
      b.freeze = .ok reg → reg.shape r.id = .inspect i → r.source = some (.obj record) →
      reg.answer limit (r.probe i record) = .ok probed → reg.answer limit r = .ok n.toValue →
      reg.shape n.id = .product p → field ∈ p.fields → field.isComputed = false →
      field.source = .key i.field → n.get? field.name = some probed := by
  intro h
  obtain ⟨reg, hreg, hshape⟩ := exists_twoProbes
  obtain ⟨n, hn, hleaf⟩ := exists_node_twoProbes hshape
  have hbuilds := builds_of_product (Builder.planned_of_freeze hreg) (hshape ⟨2⟩) rfl hleaf
  have hmem : Field.required "a" ⟨1⟩ ∈ [Field.required "a" ⟨1⟩, .required "b" ⟨0⟩] :=
    List.mem_cons_self
  have hproduct : reg.shape n.id = reg.shape ⟨2⟩ := congrArg reg.shape hbuilds.id
  -- The field holds what its own type makes of the string, not the probed value.
  have hprobed : n.get? "a" = some (.string "x") :=
    h twoProbes reg 1 _ _ twoStrings (.string "x") n _ (.required "a" ⟨1⟩) hreg (hshape ⟨4⟩) rfl
      ((answer_primitive (hshape ⟨0⟩)).trans rfl) hn (hproduct.trans (hshape ⟨2⟩)) hmem rfl rfl
  obtain ⟨v, hv, hanswer⟩ := hbuilds.field hmem rfl
  rw [answerField_twoProbes hshape] at hanswer
  cases hanswer
  cases hv.symm.trans hprobed

end Registry

end TypedTree
