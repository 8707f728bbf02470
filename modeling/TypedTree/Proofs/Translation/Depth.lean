/-
The limit of nested nodes and the depth of sources and values.

Main statements:

* `Registry.Asks.reach_le` — a step of a run gets no deeper than the source of the request;
* `Registry.translate_ne_recursionLimit` — a source that is nested no deeper than the limit is
  not cut off;
* `Registry.Chain` — nodes nested in one another, each translated for a field of the one before;
* `Registry.Chain.length_le` — a chain is no longer than the limit;
* `Registry.Nested.chain` — nodes that are nested in a value otherwise than by computed fields
  and defaults make a chain;
* `Registry.GuardsDepth` — all of this for whole sources.

Design notes: two nodes may be nested in one another in a value in more than one way, and a
default may hold nodes of its own, so chains go along a run and not along a value alone.
-/
import TypedTree.Proofs.Nesting
import TypedTree.Proofs.Translation.Elements
import TypedTree.Proofs.Translation.Failure

namespace TypedTree

/-- How deep the nodes may get that a request leads to: those around it, and the objects that are
nested in its source. -/
def Request.reach (r : Request) : Nat := r.depth + Json.nesting? r.source

namespace Registry

variable {reg : Registry} {limit : Nat} {r s : Request}

/-! ### The depth of sources -/

/-- No value that is made from a record for a field is nested as deep as the record. -/
def ReadsWithin (reg : Registry) : Prop :=
  ∀ {id : TypeId} {p : Product} {field : Field} {e : Extraction}, reg.shape id = .product p →
    field ∈ p.fields → field.isComputed = false → field.source = .extract e →
    ∀ record : Json.Record, (e.apply record).nesting < (Json.obj record).nesting

theorem ReadsKeys.readsWithin (h : reg.ReadsKeys) : reg.ReadsWithin := by
  intro id p field e hshape hmem hcomp hsource
  obtain ⟨key, hkey⟩ := h hshape hmem hcomp
  rw [hkey] at hsource
  cases hsource

/-- What a field reads is not nested as deep as the record. -/
theorem ReadsWithin.nesting_sourceIn_lt (h : reg.ReadsWithin) {id : TypeId} {p : Product}
    {field : Field} (hshape : reg.shape id = .product p) (hmem : field ∈ p.fields)
    (hcomp : field.isComputed = false) (record : Json.Record) :
    Json.nesting? (field.sourceIn record) < (Json.obj record).nesting := by
  rw [Field.sourceIn]
  split
  · exact Json.nesting_get?_lt record _
  · next e hsource => exact h hshape hmem hcomp hsource record

/-- A rest element stands in an array of the record. -/
theorem nesting_restUnder_lt (key : String) (record : Json.Record) :
    (restUnder key record).nesting < (Json.obj record).nesting := by
  have hnull : Json.null.nesting < (Json.obj record).nesting := by
    rw [Json.nesting, Json.nesting]
    exact Nat.succ_pos _
  unfold restUnder
  split
  · next items hget =>
    split
    · next last hlast =>
      split
      · have hitem := Json.nesting_le_of_mem (List.mem_of_getLast? hlast)
        have hitems := Json.nesting_get?_lt record key
        rw [hget] at hitems
        exact Nat.lt_of_le_of_lt hitem hitems
      · exact hnull
    · exact hnull
  · exact hnull

theorem readsWithin_of_sourcesSatisfy (h : reg.sourcesSatisfy isKeyOrRest = true) :
    reg.ReadsWithin := by
  intro id p field e hshape hmem hcomp hsource record
  have hcheck := of_sourcesSatisfy h hshape hmem hcomp
  rw [hsource] at hcheck
  cases e with
  | rest key => exact nesting_restUnder_lt key record
  | custom => cases hcheck

/-- A step of a run gets no deeper than the request before could. -/
theorem Asks.reach_le (hreg : reg.ReadsWithin) (h : reg.Asks limit r s) : s.reach ≤ r.reach := by
  -- A part of a record is one node further down, and not nested as deep.
  have hpart : ∀ {record : Json.Record} {id : TypeId} {source : Option Json} {path : Path},
      r.source = some (.obj record) → Json.nesting? source < (Json.obj record).nesting →
      (r.part id source path).reach ≤ r.reach := by
    intro record id source path hsource hlt
    rw [Request.reach, Request.reach, hsource]
    show r.depth + 1 + Json.nesting? source ≤ r.depth + (Json.obj record).nesting
    omega
  cases h with
  | settles step =>
    refine Nat.le_of_eq ?_
    rw [Request.reach, Request.reach, step.samePlace.source, step.samePlace.depth]
  | @item item items v i shape source mem =>
    have hitem := Json.nesting_le_of_mem (mem_of_mem_stripRest (List.fst_mem_of_mem_zipIdx mem))
    rw [Request.reach, Request.reach, source]
    exact Nat.add_le_add_left hitem _
  | probe shape source => exact hpart (eq_of_inspectable? source) (Json.nesting_get?_lt _ _)
  | field shape matching within mem supplied reading =>
    have hsource := (matchRecord_eq_ok_iff.mp matching).1
    obtain ⟨rfl, -⟩ := of_readField_eq_translate reading
    exact hpart hsource (ReadsWithin.nesting_sourceIn_lt hreg shape mem supplied _)

theorem Reaches.reach_le (hreg : reg.ReadsWithin) (h : reg.Reaches limit r s) :
    s.reach ≤ r.reach := by
  induction h with
  | refl => exact Nat.le_refl _
  | tail _ hstep ih => exact Nat.le_trans (hstep.reach_le hreg) ih

/-- A request that is cut off is one for a record. -/
theorem Raises.beyond {place : Path} (h : reg.Raises limit s (.recursionLimit place)) :
    limit < s.reach := by
  generalize he : TranslationError.recursionLimit place = e at h
  cases h with
  | @limit record source beyond =>
    have hrecord : 0 < (Json.obj record).nesting := by
      rw [Json.nesting]
      exact Nat.succ_pos _
    rw [Request.reach, source]
    exact Nat.lt_of_le_of_lt beyond (Nat.lt_add_of_pos_right hrecord)
  | mismatch | exhausted | literal | item | preset => cases he

/-- A source in which objects are nested no deeper than the limit is not cut off. -/
theorem translate_ne_recursionLimit (hreg : reg.ReadsWithin) {id : TypeId} {source : Json}
    (hsource : source.nesting ≤ limit) (place : Path) :
    reg.translate limit id source ≠ .error (.recursionLimit place) := by
  intro he
  rw [translate_eq] at he
  split at he
  · obtain ⟨s, hrun, hraises⟩ := exists_raises _ he
    have hbeyond := hraises.beyond
    have hreach : s.reach ≤ (Request.whole id source).reach := hrun.reach_le hreg
    have hwhole : (Request.whole id source).reach = source.nesting := Nat.zero_add _
    omega
  · cases he

/-! ### The depth of values -/

/-- The request that the value of a field comes from: the part that is read for it, or the one
that was probed by the inspect shape that handed the value down. -/
inductive Feeds (reg : Registry) (limit : Nat) (r : Request) (record : Json.Record)
    (field : Field) : Request → Prop
  | part {source : Option Json} {path : Path}
      (reading : reg.readField field record r.path r.preset = .translate source path) :
      Feeds reg limit r record field (r.part field.type source path)
  | probe {i : Inspect} {probed : Value} {mid : Request}
      (hand : reg.HandsDown limit i probed mid r) (key : field.source = .key i.field) :
      Feeds reg limit r record field (r.probe i record)

/-- Nodes nested in one another in the answer to a request, from the outside. Each node was
translated for a field of the one before, on its own or in a list. -/
inductive Chain (reg : Registry) (limit : Nat) : Request → Value → List Node → Prop
  | node {r : Request} {record : Json.Record} {p : Product} {n : Node}
      (builds : reg.Builds limit r record p n) : Chain reg limit r n.toValue [n]
  | field {r s : Request} {record : Json.Record} {p : Product} {n : Node} {field : Field}
      {v : Value} {nodes : List Node} (builds : reg.Builds limit r record p n)
      (mem : field ∈ p.fields) (supplied : field.isComputed = false)
      (feeds : reg.Feeds limit r record field s) (value : n.get? field.name = some v)
      (rest : Chain reg limit s v nodes) : Chain reg limit r n.toValue (n :: nodes)
  | item {r : Request} {item : TypeId} {items : List Json} {x : Json × Nat}
      {values : List Value} {v : Value} {nodes : List Node}
      (shape : reg.shape r.id = .array item) (source : r.source = some (.arr items))
      (mem : x ∈ (stripRest items).zipIdx) (value : v ∈ values)
      (rest : Chain reg limit (r.item item x.1 x.2) v nodes) :
      Chain reg limit r (.list values) nodes
  | settles {r s : Request} {v : Value} {nodes : List Node} (step : reg.Settles limit r s)
      (rest : Chain reg limit s v nodes) : Chain reg limit r v nodes

theorem Feeds.depth {record : Json.Record} {field : Field} (h : reg.Feeds limit r record field s) :
    s.depth = r.depth + 1 := by
  cases h <;> rfl

/-- A chain is no longer than there is room for nodes. -/
theorem Chain.length_le {v : Value} {nodes : List Node} (h : reg.Chain limit r v nodes) :
    r.depth + nodes.length ≤ limit := by
  induction h with
  | node builds => exact builds.within
  | field builds mem supplied feeds value rest ih =>
    rw [feeds.depth] at ih
    rw [List.length_cons]
    omega
  | item shape source mem value rest ih => exact ih
  | settles step rest ih =>
    rw [step.samePlace.depth] at ih
    exact ih

/-- Nodes nested in one another in a value, from the outside, by fields that are not computed and
do not hold their defaults. -/
inductive Nested (reg : Registry) : Value → List Node → Prop
  | node (n : Node) : Nested reg n.toValue [n]
  | field {n : Node} {p : Product} {field : Field} {v : Value} {nodes : List Node}
      (shape : reg.shape n.id = .product p) (mem : field ∈ p.fields)
      (supplied : field.isComputed = false) (value : n.get? field.name = some v)
      (own : field.population ≠ .default v) (rest : Nested reg v nodes) :
      Nested reg n.toValue (n :: nodes)
  | item {values : List Value} {v : Value} {nodes : List Node} (mem : v ∈ values)
      (rest : Nested reg v nodes) : Nested reg (.list values) nodes

theorem Nested.exists_occursIn {v : Value} {nodes : List Node} (h : reg.Nested v nodes) :
    ∃ n : Node, n.OccursIn v := by
  induction h with
  | node n => exact ⟨n, .here n⟩
  | @field n => exact ⟨n, .here n⟩
  | item mem _ ih =>
    obtain ⟨n, hn⟩ := ih
    exact ⟨n, .item mem hn⟩

theorem nested_list_iff {values : List Value} {nodes : List Node} :
    reg.Nested (.list values) nodes ↔ ∃ v ∈ values, reg.Nested v nodes := by
  constructor
  · generalize hv : Value.list values = v
    intro h
    cases h with
    | node => cases hv
    | field => cases hv
    | item mem rest =>
      cases hv
      exact ⟨_, mem, rest⟩
  · rintro ⟨v, mem, rest⟩
    exact .item mem rest

/-- Nodes nested in a node begin with it, and go on in a field, if at all. -/
theorem nested_toValue_cases {n : Node} {nodes : List Node} (h : reg.Nested n.toValue nodes) :
    nodes = [n] ∨ ∃ p field v rest, nodes = n :: rest ∧ reg.shape n.id = .product p ∧
      field ∈ p.fields ∧ field.isComputed = false ∧ n.get? field.name = some v ∧
      field.population ≠ .default v ∧ reg.Nested v rest := by
  generalize hv : n.toValue = v at h
  cases h with
  | node m =>
    obtain rfl : n = m := Option.some.inj (congrArg Value.asNode? hv)
    exact .inl rfl
  | @field m p field v rest shape mem supplied value own nested =>
    obtain rfl : n = m := Option.some.inj (congrArg Value.asNode? hv)
    exact .inr ⟨p, field, v, rest, rfl, shape, mem, supplied, value, own, nested⟩
  | item => cases hv

/-- What stands ready was handed down by an inspect shape, and nodes that are nested in it make a
chain of the request by which it was probed. -/
def ReadyChained (reg : Registry) (limit : Nat) (r : Request) : Prop :=
  ∀ ready, r.preset = some ready → ∃ i mid, reg.HandsDown limit i ready.value mid r ∧
    ready.key = i.field ∧ ∀ record nodes, r.source = some (.obj record) →
      reg.Nested ready.value nodes → reg.Chain limit (r.probe i record) ready.value nodes

theorem readyChained_of_preset_eq_none (h : r.preset = none) : reg.ReadyChained limit r := by
  intro ready hready
  rw [h] at hready
  cases hready

theorem ReadyChained.passes (h : reg.ReadyChained limit r) (hpass : reg.Passes limit r s) :
    reg.ReadyChained limit s := by
  intro ready hready
  have hs := hpass.eq_as
  rw [hs] at hready
  obtain ⟨i, mid, ⟨next, hhand, hpasses⟩, hkey, hchain⟩ := h ready hready
  refine ⟨i, mid, ⟨next, hhand, hpasses.tail hpass⟩, hkey, ?_⟩
  intro record nodes hsource hnested
  rw [hs] at hsource ⊢
  exact hchain record nodes hsource hnested

/-- Where the value of a field is not its default, the field was fed by a request that the value
answers, and nodes that are nested in the value make a chain of that request. -/
theorem exists_feeds {record : Json.Record} {field : Field} {v : Value} {nodes : List Node}
    (hsource : r.source = some (.obj record)) (hready : reg.ReadyChained limit r)
    (hpart : ∀ source path, reg.answer limit (r.part field.type source path) = .ok v →
      reg.Chain limit (r.part field.type source path) v nodes)
    (hv : reg.answerField limit r record field = .ok v) (hown : field.population ≠ .default v)
    (hnested : reg.Nested v nodes) :
    ∃ s, reg.Feeds limit r record field s ∧ reg.Chain limit s v nodes := by
  rw [answerField] at hv
  cases hreading : reg.readField field record r.path r.preset with
  | settled result =>
    rw [hreading] at hv
    cases hv
    rcases of_readField_eq_settled hreading with ⟨hdefault, -⟩ | ⟨ready, hpreset, hkey, rfl⟩
    · exact absurd hdefault hown
    · obtain ⟨i, mid, hhand, hfield, hchain⟩ := hready ready hpreset
      rw [hfield] at hkey
      exact ⟨_, .probe hhand hkey, hchain record nodes hsource hnested⟩
  | translate source path =>
    rw [hreading] at hv
    exact ⟨_, .part hreading, hpart source path hv⟩

/-- Nodes that are nested in an answer make a chain. -/
theorem Nested.chain (hplan : reg.Planned) : ∀ (r : Request) {v : Value} {nodes : List Node},
    reg.ReadyChained limit r → reg.answer limit r = .ok v → reg.Nested v nodes →
    reg.Chain limit r v nodes := by
  -- By induction on what a request leads to; the nodes in what stands ready made a chain when
  -- it was probed.
  refine request_induction reg limit ?_
  intro r ih v nodes hready hv hnested
  cases hshape : reg.shape r.id with
  | primitive kind =>
    rw [answer_primitive hshape] at hv
    obtain ⟨n, hn⟩ := hnested.exists_occursIn
    exact absurd hn (of_translatePrimitive_eq_ok hv).2.not_occursIn
  | nameSet =>
    rw [answer_nameSet hshape] at hv
    obtain ⟨set, rfl⟩ := of_translateNames_eq_ok hv
    obtain ⟨n, hn⟩ := hnested.exists_occursIn
    exact absurd hn Value.not_occursIn_names
  | array item =>
    obtain ⟨items, values, hsource, rfl, hvalues⟩ := of_answer_array_eq_ok hshape hv
    obtain ⟨value, hvalue, hrest⟩ := nested_list_iff.mp hnested
    obtain ⟨x, hx, hanswer⟩ := exists_of_forall₂_of_mem_right hvalues hvalue
    exact .item hshape hsource hx hvalue
      (ih _ (.item hshape hsource hx) (readyChained_of_preset_eq_none rfl) hanswer hrest)
  | nullable inner =>
    rcases of_answer_nullable_eq_ok hshape hv with ⟨-, rfl⟩ | ⟨hpresent, hanswer⟩
    · obtain ⟨n, hn⟩ := hnested.exists_occursIn
      exact absurd hn Value.Plain.null.not_occursIn
    · have hpass : reg.Passes limit r (r.as inner) := .inner hshape hpresent
      exact .settles (.inl hpass)
        (ih _ (Settles.calls (.inl hpass)) (hready.passes hpass) hanswer hnested)
  | union alternatives =>
    obtain ⟨next, hpass, hanswer⟩ := exists_passes_of_union hshape hv
    exact .settles (.inl hpass)
      (ih _ (Settles.calls (.inl hpass)) (hready.passes hpass) hanswer hnested)
  | product p =>
    obtain ⟨n, rfl⟩ := exists_node_of_product hshape hv
    obtain ⟨record, hbuilds⟩ := exists_builds_of_product hplan hshape hv
    rcases nested_toValue_cases hnested with
      rfl | ⟨p', field, x, rest, rfl, hshape', hmem, hcomp, hx, hown, hrest⟩
    · exact .node hbuilds
    · rw [hbuilds.id, hshape] at hshape'
      cases hshape'
      obtain ⟨x', hx', hanswer⟩ := hbuilds.field hmem hcomp
      obtain rfl : x' = x := Option.some.inj (hx'.symm.trans hx)
      obtain ⟨s, hfeeds, hchain⟩ := exists_feeds hbuilds.source hready
        (fun source path hpart => ih _ (.field hbuilds.within)
          (readyChained_of_preset_eq_none rfl) hpart hrest) hanswer hown hrest
      exact .field hbuilds hmem hcomp hfeeds hx hchain
  | inspect i =>
    obtain ⟨record, probed, arm, hrecord, hprobed, harm, hanswer⟩ :=
      of_answer_inspect_eq_ok hshape hv
    have hhand : reg.Hands limit i probed r _ := .target hshape hrecord hprobed harm
    refine .settles (.inr ⟨i, probed, hhand⟩)
      (ih _ (Settles.calls (.inr ⟨i, probed, hhand⟩)) ?_ hanswer hnested)
    intro ready hpreset
    cases hpreset
    refine ⟨i, r, ⟨_, hhand, .refl⟩, rfl, ?_⟩
    intro record' nodes' hsource hnested'
    cases (eq_of_inspectable? hrecord).symm.trans hsource
    exact ih _ (.probe hshape hrecord) (readyChained_of_preset_eq_none rfl) hprobed hnested'

/-! ### Whole sources -/

/-- The limit cuts off no source that is nested no deeper, and in particular no text that can be
read, and no more nodes are nested in one another in what is translated. -/
structure GuardsDepth (reg : Registry) : Prop where
  /-- Arrays and objects both count. -/
  source : ∀ {limit : Nat} {id : TypeId} {source : Json} {place : Path}, source.height ≤ limit →
    reg.translate limit id source ≠ .error (.recursionLimit place)
  text : ∀ {text : String} {id : TypeId} {source : Json} {place : Path},
    Json.read text = .ok source →
    reg.translate defaultLimit id source ≠ .error (.recursionLimit place)
  chain : ∀ {limit : Nat} {id : TypeId} {source : Json} {v : Value} {nodes : List Node},
    reg.translate limit id source = .ok v → reg.Chain limit (.whole id source) v nodes →
    nodes.length ≤ limit
  /-- Chains go wherever there are no computed fields and no defaults. -/
  nested : ∀ {limit : Nat} {id : TypeId} {source : Json} {v : Value} {nodes : List Node},
    reg.translate limit id source = .ok v → reg.Nested v nodes →
    reg.Chain limit (.whole id source) v nodes

theorem ReadsWithin.guardsDepth (hreg : reg.ReadsWithin) (hplan : reg.Planned) :
    reg.GuardsDepth where
  source hheight :=
    translate_ne_recursionLimit hreg (Nat.le_trans (Json.nesting_le_height _) hheight) _
  text := by
    intro text id source place hread
    have hheight : source.height ≤ defaultLimit :=
      Nat.le_trans (Json.height_le_of_read hread) (by decide)
    exact translate_ne_recursionLimit hreg (Nat.le_trans (Json.nesting_le_height _) hheight) _
  chain := by
    intro limit id source v nodes _ hchain
    have hlength := hchain.length_le
    rwa [Request.whole, Nat.zero_add] at hlength
  nested hv hnested :=
    Nested.chain hplan _ (readyChained_of_preset_eq_none rfl) (answer_of_translate_eq_ok hv) hnested

end Registry

end TypedTree
