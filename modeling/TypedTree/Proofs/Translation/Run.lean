/-
The requests of a run, and the nodes that are built in it.

A run goes from a request to all that it leads to. Main statements:

* `Registry.Asks` — one step of a run, into an item, a field, a probe, or at one place;
* `Registry.exists_handsDown_of_preset` — what stands ready in a run that began with nothing was
  probed, and was handed over by the last inspect shape on the way;
* `Registry.allNodes_of_answer` — what holds of the nodes in defaults, and of a node that is
  built as soon as it holds in its fields, holds of every node of an answer;
* `Registry.allNodes_of_populated` — so does what holds of every node that is built, if defaults
  and computed fields keep to it;
* `Registry.exists_builds_of_occursIn` — every node of an answer is built in the run, if no
  default and no computed field brings nodes of its own.

Design notes: a step into a field does not say that the fields before it have values, so a
run here may be longer than the translation of a source that is rejected.
-/
import TypedTree.Proofs.Translation.Construction

namespace TypedTree

/-- Something holds of every node that occurs in a value. -/
def Value.AllNodes (R : Node → Prop) (v : Value) : Prop := ∀ n : Node, n.OccursIn v → R n

theorem Value.Plain.allNodes {R : Node → Prop} {v : Value} (h : v.Plain) : v.AllNodes R :=
  fun _ hn => absurd hn h.not_occursIn

namespace Registry

open Relation (ReflTransGen)

variable {reg : Registry} {limit : Nat} {r s root : Request}

/-- One step of a run. -/
inductive Asks (reg : Registry) (limit : Nat) : Request → Request → Prop
  | settles {r s : Request} (step : reg.Settles limit r s) : Asks reg limit r s
  | item {r : Request} {item : TypeId} {items : List Json} {v : Json} {i : Nat}
      (shape : reg.shape r.id = .array item) (source : r.source = some (.arr items))
      (mem : (v, i) ∈ (stripRest items).zipIdx) : Asks reg limit r (r.item item v i)
  | probe {r : Request} {i : Inspect} {record : Json.Record}
      (shape : reg.shape r.id = .inspect i) (source : reg.inspectable? i r.source = some record) :
      Asks reg limit r (r.probe i record)
  | field {r : Request} {p : Product} {record : Json.Record} {field : Field}
      {source : Option Json} {path : Path} (shape : reg.shape r.id = .product p)
      (matching : reg.matchRecord r.id p.source r.source r.path = .ok record)
      (within : r.depth < limit) (mem : field ∈ p.fields) (supplied : field.isComputed = false)
      (reading : reg.readField field record r.path r.preset = .translate source path) :
      Asks reg limit r (r.part field.type source path)

/-- A run leads from one request to another. -/
def Reaches (reg : Registry) (limit : Nat) : Request → Request → Prop :=
  ReflTransGen (reg.Asks limit)

/-- What stands ready in a run that began with nothing was probed by the last inspect shape
on the way. -/
theorem exists_handsDown_of_preset (hroot : root.preset = none) (h : reg.Reaches limit root s)
    {preset : Preset} (hpreset : s.preset = some preset) :
    ∃ i mid, reg.Reaches limit root mid ∧ reg.HandsDown limit i preset.value mid s ∧
      preset.key = i.field := by
  -- Items, fields and probes begin with nothing, so only the steps at one place count.
  induction h with
  | refl =>
    rw [hroot] at hpreset
    cases hpreset
  | tail hrun hstep ih =>
    cases hstep with
    | item => cases hpreset
    | probe => cases hpreset
    | field => cases hpreset
    | settles hstep =>
      rcases hstep with hpass | ⟨i, probed, hhand⟩
      · rw [hpass.eq_as] at hpreset
        obtain ⟨i, mid, hmid, ⟨next, hhand, hpasses⟩, hkey⟩ := ih hpreset
        exact ⟨i, mid, hmid, ⟨next, hhand, hpasses.tail hpass⟩, hkey⟩
      · have heq := hhand.eq_handing
        rw [heq] at hpreset
        cases hpreset
        exact ⟨i, _, hrun, ⟨_, hhand, .refl⟩, rfl⟩

/-! ### Nodes of an answer -/

/-- A node is built in a run. -/
def BuiltFrom (reg : Registry) (limit : Nat) (root : Request) (n : Node) : Prop :=
  ∃ s record p, reg.Reaches limit root s ∧ reg.Builds limit s record p n

/-- All nodes of a value are built in a run. -/
def AllBuiltFrom (reg : Registry) (limit : Nat) (root : Request) (v : Value) : Prop :=
  ∀ n : Node, n.OccursIn v → reg.BuiltFrom limit root n

/-- What the nodes of a value are does not hang on its type. -/
theorem structural_allNodes {R : Node → Prop} : reg.Structural fun _ v => v.AllNodes R where
  plain _ _ hv := hv.allNodes
  names _ _ hn := absurd hn Value.not_occursIn_names
  list := by
    intro _ _ vs _ hvs n hn
    obtain ⟨v, hv, hn⟩ := Node.occursIn_list_iff.mp hn
    exact hvs v hv n hn
  null _ := Value.Plain.null.allNodes
  step _ hv := hv

theorem structural_allBuiltFrom :
    reg.Structural fun _ v => reg.AllBuiltFrom limit root v := structural_allNodes

/-- What is settled before a field is translated is its default or what stands ready. -/
theorem of_readField_eq_settled {field : Field} {record : Json.Record} {path : Path}
    {preset : Option Preset} {v : Value}
    (h : reg.readField field record path preset = .settled (.ok v)) :
    (field.population = .default v ∧ (field.sourceIn record).all Json.isNull = true) ∨
      ∃ ready, preset = some ready ∧ field.source = .key ready.key ∧ v = ready.value := by
  rcases readField_cases reg field record path preset with
    ⟨ready, hready, hkey, heq⟩ | ⟨d, hd, hnull, heq⟩ | heq
  · rw [heq] at h
    exact .inr ⟨ready, hready, hkey, (takePreset_eq_ok_iff.mp (Reading.settled.inj h)).2⟩
  · rw [heq] at h
    cases h
    exact .inl ⟨hd, hnull⟩
  · rw [heq] at h
    cases h

/-- What is translated for a field is what it reads in the record. -/
theorem of_readField_eq_translate {field : Field} {record : Json.Record} {path partPath : Path}
    {preset : Option Preset} {source : Option Json}
    (h : reg.readField field record path preset = .translate source partPath) :
    source = field.sourceIn record ∧ partPath = path.field field.stepKey := by
  rcases readField_cases reg field record path preset with
    ⟨ready, -, -, heq⟩ | ⟨d, -, -, heq⟩ | heq
  · rw [heq] at h
    cases h
  · rw [heq] at h
    cases h
  · rw [heq] at h
    cases h
    exact ⟨rfl, rfl⟩

section

variable {R : Node → Prop}

/-- What holds of the nodes in what stands ready, in a default that is taken and in what is
translated for a field, holds of the nodes in the value of the field. -/
theorem allNodes_of_answerField {field : Field} {record : Json.Record} {v : Value}
    (hready : ∀ preset, r.preset = some preset → preset.value.AllNodes R)
    (hdefault : field.population = .default v → (field.sourceIn record).all Json.isNull = true →
      v.AllNodes R)
    (hpart : ∀ source path, reg.readField field record r.path r.preset = .translate source path →
      reg.answer limit (r.part field.type source path) = .ok v → v.AllNodes R)
    (h : reg.answerField limit r record field = .ok v) : v.AllNodes R := by
  rw [answerField] at h
  cases hreading : reg.readField field record r.path r.preset with
  | settled result =>
    rw [hreading] at h
    cases h
    rcases of_readField_eq_settled hreading with ⟨hd, hnull⟩ | ⟨preset, hpreset, -, rfl⟩
    · exact hdefault hd hnull
    · exact hready preset hpreset
  | translate source path =>
    rw [hreading] at h
    exact hpart source path hreading h

/-- What holds of the nodes in the defaults that are taken, and of those in a node that is built
as soon as it holds of those in its fields that are not computed, holds of every node of an
answer. -/
theorem allNodes_of_answer (hplan : reg.Planned)
    (hdefault : ∀ {s : Request} {record : Json.Record} {p : Product} {n : Node} {field : Field}
      {v : Value}, reg.Reaches limit root s → reg.Builds limit s record p n → field ∈ p.fields →
      field.population = .default v → (field.sourceIn record).all Json.isNull = true →
      n.get? field.name = some v → v.AllNodes R)
    (hnode : ∀ {s : Request} {record : Json.Record} {p : Product} {n : Node},
      reg.Reaches limit root s → reg.Builds limit s record p n →
      (∀ field ∈ p.fields, field.isComputed = false → ∀ v,
        reg.answerField limit s record field = .ok v → v.AllNodes R) →
      n.toValue.AllNodes R) :
    ∀ (r : Request) (v : Value), reg.Reaches limit root r →
      (∀ preset, r.preset = some preset → preset.value.AllNodes R) →
      reg.answer limit r = .ok v → v.AllNodes R := by
  -- By induction on what a request leads to; the nodes of what stands ready were met when it
  -- was probed.
  refine request_induction reg limit ?_
  intro r ih v hrun hready hv
  have hnothing : ∀ preset : Preset, none = some preset → preset.value.AllNodes R := by
    intro _ hnone
    cases hnone
  cases hshape : reg.shape r.id with
  | primitive kind =>
    rw [answer_primitive hshape] at hv
    exact (of_translatePrimitive_eq_ok hv).2.allNodes
  | nameSet =>
    rw [answer_nameSet hshape] at hv
    obtain ⟨set, rfl⟩ := of_translateNames_eq_ok hv
    exact fun n hn => absurd hn Value.not_occursIn_names
  | array item =>
    obtain ⟨items, values, hsource, rfl, hvalues⟩ := of_answer_array_eq_ok hshape hv
    intro n hn
    obtain ⟨value, hvalue, hn⟩ := Node.occursIn_list_iff.mp hn
    obtain ⟨x, hx, hanswer⟩ := exists_of_forall₂_of_mem_right hvalues hvalue
    exact ih _ (.item hshape hsource hx) value (hrun.tail (.item hshape hsource hx))
      hnothing hanswer n hn
  | nullable inner =>
    rcases of_answer_nullable_eq_ok hshape hv with ⟨-, rfl⟩ | ⟨hpresent, hanswer⟩
    · exact Value.Plain.null.allNodes
    · have hpass : reg.Passes limit r (r.as inner) := .inner hshape hpresent
      exact ih _ (.samePath hpass.mem_samePath) v (hrun.tail (.settles (.inl hpass))) hready
        hanswer
  | union alternatives =>
    obtain ⟨next, hpass, hanswer⟩ := exists_passes_of_union hshape hv
    refine ih next (Settles.calls (.inl hpass)) v (hrun.tail (.settles (.inl hpass))) ?_ hanswer
    rw [hpass.eq_as]
    exact hready
  | product p =>
    obtain ⟨n, rfl⟩ := exists_node_of_product hshape hv
    obtain ⟨record, hbuilds⟩ := exists_builds_of_product hplan hshape hv
    have hrecord : reg.matchRecord r.id p.source r.source r.path = .ok record :=
      matchRecord_eq_ok_iff.mpr ⟨hbuilds.source, hbuilds.admits⟩
    refine hnode hrun hbuilds fun field hmem hcomp v hanswer => ?_
    refine allNodes_of_answerField hready ?_ ?_ hanswer
    · intro hd hnull
      obtain ⟨w, hw, hanswer'⟩ := hbuilds.field hmem hcomp
      cases hanswer.symm.trans hanswer'
      exact hdefault hrun hbuilds hmem hd hnull hw
    · intro source path hreading hpart
      exact ih _ (.field hbuilds.within) v
        (hrun.tail (.field hshape hrecord hbuilds.within hmem hcomp hreading)) hnothing hpart
  | inspect i =>
    obtain ⟨record, probed, arm, hrecord, hprobed, harm, hanswer⟩ :=
      of_answer_inspect_eq_ok hshape hv
    have hhand : reg.Hands limit i probed r _ := .target hshape hrecord hprobed harm
    have hprobe : probed.AllNodes R :=
      ih _ (.probe hshape hrecord) probed (hrun.tail (.probe hshape hrecord))
        hnothing hprobed
    refine ih _ (.target hhand.mem_samePath) v (hrun.tail (.settles (.inr ⟨i, probed, hhand⟩)))
      ?_ hanswer
    intro preset hpreset
    cases hpreset
    exact hprobe

end

/-- A node that is built, from the slots before its computed fields are evaluated. -/
theorem Builds.exists_eq {record : Json.Record} {p : Product} {n : Node}
    (h : reg.Builds limit s record p n) :
    ∃ slots, n = ⟨s.id, reg.name s.id, p.complete (reg.plan s.id) slots,
        Metadata.ofRecord? record⟩ ∧
      List.Forall₂ (reg.Supplies limit s record) p.fields slots := by
  obtain ⟨found, slots, hfound, -, hslots, heq⟩ := of_answer_product_eq_ok h.shape h.answer
  obtain rfl : found = record := by
    have hsource := (matchRecord_eq_ok_iff.mp hfound).1
    rw [h.source] at hsource
    cases hsource
    rfl
  refine ⟨slots, ?_, hslots⟩
  cases n
  cases heq
  rfl

theorem Builds.typeName {record : Json.Record} {p : Product} {n : Node}
    (h : reg.Builds limit s record p n) : n.typeName = reg.name s.id := by
  obtain ⟨slots, rfl, -⟩ := h.exists_eq
  rfl

theorem Builds.metadata {record : Json.Record} {p : Product} {n : Node}
    (h : reg.Builds limit s record p n) : n.metadata = Metadata.ofRecord? record := by
  obtain ⟨slots, rfl, -⟩ := h.exists_eq
  rfl

theorem Builds.exists_slots {record : Json.Record} {p : Product} {n : Node}
    (h : reg.Builds limit s record p n) :
    ∃ slots, n.fields = p.complete (reg.plan s.id) slots ∧
      List.Forall₂ (reg.Supplies limit s record) p.fields slots := by
  obtain ⟨slots, rfl, hslots⟩ := h.exists_eq
  exact ⟨slots, rfl, hslots⟩

/-- Without computed fields, a node holds what was read for its fields, in their order. -/
theorem Builds.answers (hplan : reg.Planned) {record : Json.Record} {p : Product} {n : Node}
    (h : reg.Builds limit s record p n) (hrules : ∀ field ∈ p.fields, field.rule? = none) :
    List.Forall₂ (fun field entry => entry.1 = field.name ∧
      reg.answerField limit s record field = .ok entry.2) p.fields n.fields := by
  obtain ⟨slots, hfields, hslots⟩ := h.exists_slots
  have hpreserves : p.Preserves fun field v => reg.answerField limit s record field = .ok v := by
    intro field hmem rule hrule
    rw [hrules field hmem] at hrule
    cases hrule
  rw [hfields]
  exact (Product.complete_spec (hplan h.shape) (Supplies.supplied hslots) hpreserves).1

/-- What holds of every node that is built holds of every node of an answer, if it holds of the
nodes in defaults and computed fields keep it. -/
theorem allNodes_of_populated {R : Node → Prop} (hplan : reg.Planned)
    (hpop : reg.Populated fun _ v => v.AllNodes R)
    (hbuilt : ∀ {s : Request} {record : Json.Record} {p : Product} {n : Node},
      reg.Reaches limit root s → reg.Builds limit s record p n → R n) :
    ∀ (r : Request) (v : Value), reg.Reaches limit root r →
      (∀ preset, r.preset = some preset → preset.value.AllNodes R) →
      reg.answer limit r = .ok v → v.AllNodes R := by
  refine allNodes_of_answer hplan
    (fun _ hbuilds hmem hd _ _ => hpop.default hbuilds.shape hmem hd) ?_
  intro s record p n hrun hbuilds hfields m hm
  rcases Node.occursIn_toValue_iff.mp hm with rfl | ⟨name, v, hmem, hm⟩
  · exact hbuilt hrun hbuilds
  · obtain ⟨slots, hslots, hsupplies⟩ := hbuilds.exists_slots
    -- The fields that are not computed, before the plan is run.
    have hsupplied : p.Supplied (fun _ v => v.AllNodes R) slots := by
      refine forall₂_imp_of_mem_left ?_ (Supplies.supplied hsupplies)
      intro field slot hmem hslot
      split at hslot
      · next hcomp => rw [if_pos hcomp, hslot]
      · next hcomp =>
        rw [if_neg hcomp]
        obtain ⟨v, rfl, hanswer⟩ := hslot
        exact ⟨v, rfl, hfields field hmem (by simpa using hcomp) v hanswer⟩
    obtain ⟨hentries, -, -⟩ :=
      Product.complete_spec (hplan hbuilds.shape) hsupplied (hpop.rule hbuilds.shape)
    rw [hslots] at hmem
    obtain ⟨field, -, -, hall⟩ := exists_of_forall₂_of_mem_right hentries hmem
    exact hall m hm

/-- Every node of an answer is built in the run, if no default and no computed field brings nodes
of its own. -/
theorem exists_builds_of_occursIn (hplan : reg.Planned)
    (hpop : reg.Populated fun _ v => reg.AllBuiltFrom limit root v) :
    ∀ (r : Request) (v : Value), reg.Reaches limit root r →
      (∀ preset, r.preset = some preset → reg.AllBuiltFrom limit root preset.value) →
      reg.answer limit r = .ok v → reg.AllBuiltFrom limit root v :=
  allNodes_of_populated hplan hpop fun hrun hbuilds => ⟨_, _, _, hrun, hbuilds⟩

end Registry

end TypedTree
