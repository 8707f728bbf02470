/-
Translated values written back and translated again.

Where types mirror what they read, a value that is written back is a source of its own type, and
what it becomes is the same value again, but for the rest elements. Main statements:

* `Value.withoutRest` — a value without the rest element at the end of any list;
* `Registry.Rereads` — a value for when the source has none is read back as itself;
* `Registry.Mirrors` — every product has the name of the records it reads, and every field that
  of the key it reads;
* `Registry.Mirrors.renews` — then a value that is written back answers the same request, and what
  comes of it is written like the value without rest elements;
* `Registry.Mirrors.translate_toJson` — so does a whole source, and it comes out as it was written
  if and only if no list in it ends in a rest element.

Design notes: an array leaves out a rest element at its end each time it is read, and the element
before it may be another one. Values themselves need not come back: a missing value of any kind
becomes `null` first, and a `null` that is carried along the second time.
-/
import TypedTree.Proofs.Rendering
import TypedTree.Proofs.Translation.Heads
import TypedTree.Proofs.Translation.Membership
import TypedTree.Proofs.Translation.Origin

namespace TypedTree

/-! ### Rest elements of values -/

namespace Value

/-- The items without the one at their end that is written as a rest element. -/
def trimRest (items : List Value) : List Value :=
  match items.getLast? with
  | some last => if (last.toJson true).isRest then items.dropLast else items
  | none => items

mutual

/-- A value without the rest element at the end of any list. -/
def withoutRest : Value → Value
  | null => null
  | bool b => bool b
  | number n => number n
  | string s => string s
  | any source => any source
  | list items => list (withoutRestItems items)
  | names set => names set
  | node id typeName fields metadata => node id typeName (withoutRestFields fields) metadata

/-- Items without rest elements; the last one may be one itself. -/
def withoutRestItems : List Value → List Value
  | [] => []
  | item :: rest =>
    if rest.isEmpty && (item.toJson true).isRest then []
    else withoutRest item :: withoutRestItems rest

/-- Fields without rest elements. -/
def withoutRestFields : List (String × Value) → List (String × Value)
  | [] => []
  | (name, value) :: rest => (name, withoutRest value) :: withoutRestFields rest

end

/-- The items are trimmed, then each of them. -/
theorem withoutRestItems_eq_map (items : List Value) :
    withoutRestItems items = (trimRest items).map withoutRest := by
  induction items with
  | nil => rfl
  | cons item rest ih =>
    rw [withoutRestItems, ih]
    cases rest with
    | nil =>
      by_cases hrest : (item.toJson true).isRest = true
      · simp [trimRest, hrest]
      · simp [trimRest, hrest]
    | cons next rest =>
      have htrim : trimRest (item :: next :: rest) = item :: trimRest (next :: rest) := by
        rw [trimRest, trimRest, List.getLast?_cons_cons]
        split
        · split <;> rfl
        · rfl
      rw [htrim]
      rfl

theorem withoutRestFields_eq_map (fields : List (String × Value)) :
    withoutRestFields fields = fields.map fun entry => (entry.1, withoutRest entry.2) := by
  induction fields with
  | nil => rfl
  | cons entry fields ih => rw [withoutRestFields, ih, List.map_cons]

/-- What is taken of a list that was written back. -/
theorem stripRest_map_toJson (items : List Value) :
    stripRest (items.map (toJson true)) = (trimRest items).map (toJson true) := by
  rw [stripRest, trimRest, List.getLast?_map]
  cases items.getLast? with
  | none => rfl
  | some last =>
    rw [Option.map_some]
    dsimp only
    split
    · rw [List.map_dropLast]
    · rfl

/-- Items are kept, or the one at the end is taken off. -/
theorem trimRest_cases (items : List Value) :
    (∀ last, items.getLast? = some last → (last.toJson true).isRest = false) ∧
        trimRest items = items ∨
      ∃ last, items.getLast? = some last ∧ (last.toJson true).isRest = true ∧
        items = trimRest items ++ [last] := by
  unfold trimRest
  cases hlast : items.getLast? with
  | none => exact .inl ⟨nofun, rfl⟩
  | some last =>
    dsimp only
    by_cases hrest : (last.toJson true).isRest = true
    · rw [if_pos hrest]
      exact .inr ⟨last, rfl, hrest, (List.dropLast_append_getLast? last hlast).symm⟩
    · rw [if_neg hrest]
      refine .inl ⟨fun last' hlast' => ?_, rfl⟩
      cases hlast'
      simpa using hrest

theorem getElem?_of_trimRest {items : List Value} {i : Nat} {v : Value}
    (h : (trimRest items)[i]? = some v) : items[i]? = some v := by
  rcases trimRest_cases items with ⟨-, heq⟩ | ⟨last, -, -, heq⟩
  · rwa [heq] at h
  · obtain ⟨hlt, -⟩ := List.getElem?_eq_some_iff.mp h
    rw [heq, List.getElem?_append_left hlt]
    exact h

theorem withoutRest_of_plain {v : Value} (h : v.Plain) : v.withoutRest = v := by
  cases h <;> rfl

/-- What is written as `null` has no rest element. -/
theorem withoutRest_of_isNull {v : Value} (h : (v.toJson true).isNull = true) :
    v.withoutRest = v := by
  cases v with
  | null | bool | number | string | any | names => rfl
  | list => cases h
  | node id typeName fields metadata =>
    have hnode := Node.toJson_toValue ⟨id, typeName, fields, metadata⟩
    rw [Node.toValue] at hnode
    rw [hnode] at h
    cases h

/-- Some list in a value ends in what is written as a rest element. -/
inductive HasRest : Value → Prop
  | here {items : List Value} {last : Value} (last_eq : items.getLast? = some last)
      (rest : (last.toJson true).isRest = true) : HasRest (list items)
  | item {items : List Value} {v : Value} (mem : v ∈ items) (h : HasRest v) : HasRest (list items)
  | field {id : TypeId} {typeName : String} {fields : List (String × Value)}
      {metadata : Option Metadata} {name : String} {v : Value} (mem : (name, v) ∈ fields)
      (h : HasRest v) : HasRest (node id typeName fields metadata)

theorem trimRest_eq_self {items : List Value} (h : ¬ HasRest (list items)) :
    trimRest items = items := by
  rcases trimRest_cases items with ⟨-, heq⟩ | ⟨last, hlast, hrest, -⟩
  · exact heq
  · exact absurd (.here hlast hrest) h

mutual

/-- Without rest elements nothing is left out. -/
theorem withoutRest_eq_self : ∀ {v : Value}, ¬ HasRest v → withoutRest v = v
  | null, _ | bool _, _ | number _, _ | string _, _ | any _, _ | names _, _ => rfl
  | list items, h => by
    rw [withoutRest, withoutRestItems_eq_map, trimRest_eq_self h,
      map_withoutRest_eq_self fun v hv hrest => h (.item hv hrest)]
  | node id typeName fields metadata, h => by
    rw [withoutRest, withoutRestFields_eq_self fun name v hv hrest => h (.field hv hrest)]

theorem map_withoutRest_eq_self : ∀ {items : List Value}, (∀ v ∈ items, ¬ HasRest v) →
    items.map withoutRest = items
  | [], _ => rfl
  | item :: rest, h => by
    obtain ⟨hitem, hrest⟩ := List.forall_mem_cons.mp h
    rw [List.map_cons, withoutRest_eq_self hitem, map_withoutRest_eq_self hrest]

theorem withoutRestFields_eq_self : ∀ {fields : List (String × Value)},
    (∀ name v, (name, v) ∈ fields → ¬ HasRest v) → withoutRestFields fields = fields
  | [], _ => rfl
  | (name, v) :: rest, h => by
    rw [withoutRestFields, withoutRest_eq_self (h name v List.mem_cons_self),
      withoutRestFields_eq_self fun name v hv => h name v (List.mem_cons_of_mem _ hv)]

end

/-- A list that is written alike has no rest element at its end, and its items are written
alike. -/
theorem of_toJson_list_eq {items : List Value}
    (h : (list items).withoutRest.toJson true = (list items).toJson true) :
    (∀ last, items.getLast? = some last → (last.toJson true).isRest = false) ∧
      ∀ v ∈ items, v.withoutRest.toJson true = v.toJson true := by
  rw [withoutRest, toJson, toJson, itemsToJson_eq_map, itemsToJson_eq_map,
    withoutRestItems_eq_map, List.map_map] at h
  have hmap := Json.arr.inj h
  rcases trimRest_cases items with ⟨hlast, heq⟩ | ⟨last, -, -, heq⟩
  · rw [heq] at hmap
    exact ⟨hlast, List.map_inj_left.mp hmap⟩
  · have hlength := congrArg List.length hmap
    have hitems := congrArg List.length heq
    rw [List.length_map, List.length_map] at hlength
    rw [List.length_append, List.length_singleton] at hitems
    omega

theorem wellNamed_withoutRestFields {n : Node} (h : n.WellNamed) :
    Node.WellNamed { n with fields := withoutRestFields n.fields } := by
  have hnames : (withoutRestFields n.fields).map (·.1) = n.fields.map (·.1) := by
    rw [withoutRestFields_eq_map, List.map_map]
    rfl
  exact ⟨hnames ▸ h.nodup, fun name hname => h.apart name (hnames ▸ hname)⟩

/-- Where a rest element is left out, it shows. -/
theorem not_hasRest_of_toJson_eq {v : Value} (hnamed : v.AllNodes Node.WellNamed)
    (h : v.withoutRest.toJson true = v.toJson true) : ¬ HasRest v := by
  intro hrest
  induction hrest with
  | here hlast hrest =>
    rw [(of_toJson_list_eq h).1 _ hlast] at hrest
    cases hrest
  | item mem _ ih =>
    exact ih (fun n hn => hnamed n (.item mem hn)) ((of_toJson_list_eq h).2 _ mem)
  | @field id typeName fields metadata name v mem _ ih =>
    let n : Node := ⟨id, typeName, fields, metadata⟩
    let m : Node := { n with fields := withoutRestFields fields }
    have hn : n.WellNamed := hnamed n (.here n)
    have hm : m.WellNamed := wellNamed_withoutRestFields hn
    have hv : n.get? name = some v := lookup_eq_some_of_mem hn.nodup mem
    have hw : m.get? name = some v.withoutRest := by
      refine lookup_eq_some_of_mem hm.nodup ?_
      show (name, v.withoutRest) ∈ withoutRestFields fields
      rw [withoutRestFields_eq_map]
      exact List.mem_map.mpr ⟨_, mem, rfl⟩
    have hrecord : m.toRecord = n.toRecord := by
      have hnode : m.toValue.toJson true = n.toValue.toJson true := h
      rw [Node.toJson_toValue, Node.toJson_toValue] at hnode
      exact Json.obj.inj hnode
    -- The field is found in the record that both are written as.
    have hboth := hm.get?_toRecord hw
    rw [hrecord, hn.get?_toRecord hv] at hboth
    exact ih (fun k hk => hnamed k (.field (m := n) mem hk)) (Option.some.inj hboth).symm

end Value

/-- What is written for a value of a kind is of that kind. -/
theorem Primitive.accepts_toJson {kind : Primitive} {d : Value} (hkind : kind ≠ .any)
    (h : kind.holds d = true) : kind.accepts (d.toJson true) = true := by
  cases kind with
  | any => exact absurd rfl hkind
  | string | number | boolean | null => cases d <;> first | rfl | cases h

namespace Registry

open Json (headOf)

variable {reg : Registry} {limit : Nat} {r s : Request} {p : Product} {n : Node}
  {record : Json.Record} {field : Field}

/-- A plain value is written as its source. -/
theorem toJson_of_translatePrimitive {id : TypeId} {kind : Primitive} {source : Option Json}
    {path : Path} {v : Value} (hv : reg.translatePrimitive id kind source path = .ok v) :
    v.toJson true = source.getD .null := by
  unfold translatePrimitive at hv
  split at hv
  · cases hv
    rfl
  · cases hv
    rfl
  · cases hv
    rfl
  · next value hnot =>
    split at hv
    · next haccepts =>
      cases hv
      cases kind with
      | any => exact absurd rfl hnot
      | string | number | boolean | null =>
        cases value <;> first | rfl | cases haccepts
    · cases hv
  · cases hv

/-! ### Values read back -/

/-- What a value that is written back becomes: another one that is written like the first, but
for rest elements. -/
def Renews (reg : Registry) (limit : Nat) (r : Request) (v : Value) : Prop :=
  ∃ v', reg.answer limit (r.withSource (some (v.toJson true))) = .ok v' ∧
    v'.toJson true = v.withoutRest.toJson true

/-- The items of a list are read back, but for a rest element at their end. -/
theorem renews_list {item : TypeId} {values : List Value} (hshape : reg.shape r.id = .array item)
    (h : ∀ v i, values[i]? = some v → ∃ v',
      reg.answer limit (r.item item (v.toJson true) i) = .ok v' ∧
        v'.toJson true = v.withoutRest.toJson true) :
    reg.Renews limit r (.list values) := by
  -- What is read back are the items without a rest element at their end, each at its old place.
  let kept := Value.trimRest values
  have hkept : ∀ x ∈ kept.zipIdx, ∃ v',
      reg.answer limit (r.item item (x.1.toJson true) x.2) = .ok v' ∧
        v'.toJson true = x.1.withoutRest.toJson true := by
    rintro ⟨v, i⟩ hx
    exact h v i (Value.getElem?_of_trimRest (List.mem_zipIdx_iff_getElem?.mp hx))
  obtain ⟨values', hvalues'⟩ := exists_forall₂_of_mem hkept
  refine ⟨.list values', ?_, ?_⟩
  · have hsource : (Value.list values).toJson true = .arr (values.map (Value.toJson true)) := by
      rw [Value.toJson, Value.itemsToJson_eq_map]
    have hitems : kept.zipIdx.mapM (fun x =>
        reg.answer limit (r.item item (x.1.toJson true) x.2)) = .ok values' :=
      mapM_eq_ok_iff.mpr (hvalues'.imp fun _ _ hx => hx.1)
    rw [hsource, answer_array (r := r.withSource (some (.arr _))) hshape]
    show (stripRest (values.map (Value.toJson true))).zipIdx.mapM _ >>= _ = _
    rw [Value.stripRest_map_toJson, List.zipIdx_map, List.mapM_map]
    exact bind_eq_ok_iff.mpr ⟨values', hitems, rfl⟩
  · rw [Value.withoutRest, Value.toJson, Value.toJson, Value.itemsToJson_eq_map,
      Value.itemsToJson_eq_map, Value.withoutRestItems_eq_map]
    refine congrArg Json.arr ?_
    calc values'.map (Value.toJson true)
        = kept.zipIdx.map (fun x => x.1.withoutRest.toJson true) :=
          (forall₂_iff_map_eq_map.mp (hvalues'.imp fun _ _ hx => hx.2.symm)).symm
      _ = (kept.zipIdx.map Prod.fst).map (fun v => v.withoutRest.toJson true) := by
          rw [List.map_map]
          rfl
      _ = (kept.map Value.withoutRest).map (Value.toJson true) := by
          rw [List.zipIdx_map_fst, List.map_map]
          rfl

/-! ### Types that mirror what they read -/

/-- A value for when the source has none is `null`, or it is read back as itself. -/
def Rereads (reg : Registry) (type : TypeId) (d : Value) : Prop :=
  (d.toJson true).isNull = false → ∀ limit path depth,
    ∃ d', reg.answer limit ⟨type, some (d.toJson true), path, none, depth⟩ = .ok d' ∧
      d'.toJson true = d.withoutRest.toJson true

/-- Every product has the name of the records it reads, and no other condition; every field has
the name of the key it reads, which is used for nothing else, and is read back from its default.
-/
structure Mirrors (reg : Registry) : Prop where
  planned : reg.Planned
  byHead : ∀ id, goesByHead (reg.shape id) = true
  tag : ∀ {id p}, reg.shape id = .product p → p.source.tag = reg.name id
  source : ∀ {id p field}, reg.shape id = .product p → field ∈ p.fields →
    field.source = .key field.name
  apart : ∀ {id p field}, reg.shape id = .product p → field ∈ p.fields →
    field.name ≠ "type" ∧ field.name ∉ Metadata.keys
  rule : ∀ {id p field}, reg.shape id = .product p → field ∈ p.fields → field.rule? = none
  default : ∀ {id p field d}, reg.shape id = .product p → field ∈ p.fields →
    field.population = .default d → reg.Rereads field.type d
  spares : reg.SparesNodes

namespace Mirrors

variable (h : reg.Mirrors)
include h

theorem wellNamed (hbuilds : reg.Builds limit s record p n) : n.WellNamed := by
  constructor
  · rw [hbuilds.names h.planned]
    exact (Product.of_plan_eq_ok (h.planned hbuilds.shape)).1
  · intro name hname
    rw [hbuilds.names h.planned] at hname
    obtain ⟨field, hmem, rfl⟩ := List.mem_map.mp hname
    exact h.apart hbuilds.shape hmem

/-- A value that is written back has the head of its source. -/
theorem head_of_answer : ∀ (r : Request) {v : Value}, reg.answer limit r = .ok v →
    (v.toJson true).head = headOf r.source := by
  -- By induction on what a request leads to. Sets of names and inspect shapes are ruled out by
  -- `byHead`: they do not go by the head of what they read.
  refine request_induction reg limit ?_
  intro r ih v hv
  have hid := h.byHead r.id
  cases hshape : reg.shape r.id with
  | primitive kind =>
    rw [answer_primitive hshape] at hv
    rw [toJson_of_translatePrimitive hv]
    rfl
  | array item =>
    obtain ⟨items, values, hsource, rfl, -⟩ := of_answer_array_eq_ok hshape hv
    rw [hsource]
    rfl
  | nullable inner =>
    rcases of_answer_nullable_eq_ok hshape hv with ⟨hnull, rfl⟩ | ⟨-, hanswer⟩
    · exact (Json.all_isNull_iff_headOf.mp hnull).symm
    · have hmem : inner ∈ (reg.shape r.id).samePath := by simp [hshape, Shape.samePath]
      exact ih _ (.samePath hmem) hanswer
  | union alternatives =>
    obtain ⟨a, ha, hanswer⟩ := of_answer_union_eq_ok hshape hv
    have hmem : a ∈ (reg.shape r.id).samePath := by simpa [hshape, Shape.samePath] using ha
    exact ih _ (.samePath hmem) hanswer
  | product p =>
    obtain ⟨n, rfl⟩ := exists_node_of_product hshape hv
    obtain ⟨record, hbuilds⟩ := exists_builds_of_product h.planned hshape hv
    rw [Node.toJson_toValue, hbuilds.source, Json.head, (h.wellNamed hbuilds).tag?_toRecord,
      hbuilds.typeName, ← h.tag hshape, ← hbuilds.admits.1]
    rfl
  | nameSet =>
    rw [hshape] at hid
    cases hid
  | inspect i =>
    rw [hshape] at hid
    cases hid

/-- The record that a node is written as is one that its type reads. -/
theorem matchRecord_toRecord (hbuilds : reg.Builds limit s record p n) (path : Path) :
    reg.matchRecord s.id p.source (some (.obj n.toRecord)) path = .ok n.toRecord := by
  have hliterals : p.source.literals = [] := by
    have hid := h.byHead s.id
    rw [hbuilds.shape] at hid
    exact List.isEmpty_iff.mp hid
  refine matchRecord_eq_ok_iff.mpr ⟨rfl, ?_, by simp [hliterals]⟩
  rw [(h.wellNamed hbuilds).tag?_toRecord, hbuilds.typeName, h.tag hbuilds.shape]

/-- A field is read back from the record that its node is written as. -/
theorem exists_answerField_toRecord (hbuilds : reg.Builds limit s record p n)
    (hpreset : s.preset = none) (hmem : field ∈ p.fields) {v : Value}
    (hv : n.get? field.name = some v) (hanswer : reg.answerField limit s record field = .ok v)
    (ih : ∀ source path, reg.answer limit (s.part field.type source path) = .ok v →
      reg.Renews limit (s.part field.type source path) v) :
    ∃ v', reg.answerField limit (s.withSource (some (.obj n.toRecord))) n.toRecord field = .ok v' ∧
      v'.toJson true = v.withoutRest.toJson true := by
  have hsource : ∀ record : Json.Record, field.sourceIn record = record.get? field.name := by
    intro record
    rw [Field.sourceIn, h.source hbuilds.shape hmem]
  have hget : field.sourceIn n.toRecord = some (v.toJson true) := by
    rw [hsource]
    exact (h.wellNamed hbuilds).get?_toRecord hv
  have hrecord := @answerField_cases reg limit s hpreset record field
  have hwritten := @answerField_cases reg limit (s.withSource (some (.obj n.toRecord))) hpreset
    n.toRecord field
  rw [hget, Option.all_some] at hwritten
  rcases hwritten with ⟨d, hd, hnull, heq⟩ | ⟨hpresent, heq⟩
  · -- what is written is `null`, so the default was taken the first time, too
    refine ⟨d, heq, ?_⟩
    rw [Value.withoutRest_of_isNull hnull]
    rcases hrecord with ⟨d', hd', -, heq'⟩ | ⟨hpresent', heq'⟩
    · cases hd.symm.trans hd'
      cases hanswer.symm.trans heq'
      rfl
    · have hhead := h.head_of_answer _ (heq'.symm.trans hanswer)
      rw [Json.isNull_eq_true_iff_head.mp hnull] at hhead
      have hmissing : (field.sourceIn record).all Json.isNull = true :=
        Json.all_isNull_iff_headOf.mpr hhead.symm
      rw [hpresent' d hd] at hmissing
      cases hmissing
  · rw [heq]
    rcases hrecord with ⟨d, hd, -, heq'⟩ | ⟨-, heq'⟩
    · cases hanswer.symm.trans heq'
      exact h.default hbuilds.shape hmem hd (hpresent v hd) limit _ _
    · exact ih _ _ (heq'.symm.trans hanswer)

/-- A node is read back if its fields are. -/
theorem renews_node (hbuilds : reg.Builds limit s record p n) (hpreset : s.preset = none)
    (ih : ∀ (field : Field) source path v,
      reg.answer limit (s.part field.type source path) = .ok v →
      reg.Renews limit (s.part field.type source path) v) :
    reg.Renews limit s n.toValue := by
  have hgiven : ∀ field ∈ p.fields, field.rule? = none := fun _ hmem => h.rule hbuilds.shape hmem
  let t := s.withSource (some (.obj n.toRecord))
  have hfield : ∀ {field v}, field ∈ p.fields → reg.answerField limit s record field = .ok v →
      ∃ v', reg.answerField limit t n.toRecord field = .ok v' ∧
        v'.toJson true = v.withoutRest.toJson true := by
    intro field v hmem hanswer
    have hcomp : field.isComputed = false := by
      rw [Field.isComputed, hgiven field hmem]
      rfl
    obtain ⟨w, hw, hanswer'⟩ := hbuilds.field hmem hcomp
    cases hanswer.symm.trans hanswer'
    exact h.exists_answerField_toRecord hbuilds hpreset hmem hw hanswer fun source path =>
      ih field source path v
  -- The product answers again, as each of its fields does.
  obtain ⟨v', hv'⟩ : ∃ v', reg.answer limit t = .ok v' := by
    have hmatch : reg.matchRecord t.id p.source t.source t.path = .ok n.toRecord :=
      h.matchRecord_toRecord hbuilds s.path
    refine (exists_answer_product_iff (r := t) hbuilds.shape rfl).mpr
      ⟨(matchRecord_eq_ok_iff.mp hmatch).2, hbuilds.within, fun field hmem hcomp => ?_⟩
    obtain ⟨v, -, hanswer⟩ := hbuilds.field hmem hcomp
    obtain ⟨v', hv', -⟩ := hfield hmem hanswer
    exact ⟨v', hv'⟩
  obtain ⟨m, rfl⟩ := exists_node_of_product (r := t) hbuilds.shape hv'
  have hbuilds' : reg.Builds limit t n.toRecord p m :=
    builds_of_product h.planned hbuilds.shape rfl hv'
  have hfields : Value.fieldsToJson true m.fields =
      Value.fieldsToJson true (Value.withoutRestFields n.fields) := by
    have hfirst := forall₂_imp_of_mem_left (fun field entry hmem hentry => And.intro hmem hentry)
      (hbuilds.answers h.planned hgiven)
    have hentries : List.Forall₂ (fun entry entry' : String × Value =>
        (entry.1, entry.2.withoutRest.toJson true) = (entry'.1, entry'.2.toJson true))
        n.fields m.fields := by
      refine forall₂_trans ?_ hfirst.flip (hbuilds'.answers h.planned hgiven)
      rintro entry field entry' ⟨hmem, hname, hanswer⟩ ⟨hname', hanswer'⟩
      obtain ⟨v', hv', hwritten⟩ := hfield hmem hanswer
      cases hanswer'.symm.trans hv'
      rw [hname, hname', hwritten]
    rw [Value.fieldsToJson_eq_map, Value.fieldsToJson_eq_map, Value.withoutRestFields_eq_map,
      List.map_map]
    exact (forall₂_iff_map_eq_map.mp hentries).symm
  refine ⟨m.toValue, ?_, ?_⟩
  · rw [Node.toJson_toValue]
    exact hv'
  · have hwithout : n.toValue.withoutRest =
        Node.toValue { n with fields := Value.withoutRestFields n.fields } := rfl
    have hmetadata : m.metadata = n.metadata := by
      rw [hbuilds'.metadata]
      exact (h.wellNamed hbuilds).ofRecord?_toRecord hbuilds.metadata
    rw [hwithout, Node.toJson_toValue, Node.toJson_toValue, Node.toRecord, Node.toRecord, hfields,
      hmetadata, hbuilds'.typeName, hbuilds.typeName]
    rfl

/-- What is written back is translated as the same type, and what comes of it is written like the
value without rest elements. -/
theorem renews : ∀ (r : Request) {v : Value}, r.preset = none → reg.answer limit r = .ok v →
    reg.Renews limit r v := by
  refine request_induction reg limit ?_
  intro r ih v hpreset hv
  have hid := h.byHead r.id
  have hhead : (v.toJson true).head = headOf r.source := h.head_of_answer r hv
  cases hshape : reg.shape r.id with
  | primitive kind =>
    rw [answer_primitive hshape] at hv
    have hsource := toJson_of_translatePrimitive hv
    obtain ⟨v', hv'⟩ : ∃ v', reg.translatePrimitive r.id kind (some (v.toJson true)) r.path =
        .ok v' := by
      rw [exists_translatePrimitive_iff, Option.getD_some, hsource]
      exact exists_translatePrimitive_iff.mp ⟨v, hv⟩
    refine ⟨v', ?_, ?_⟩
    · rw [answer_primitive (r := r.withSource (some (v.toJson true))) hshape]
      exact hv'
    · rw [Value.withoutRest_of_plain (of_translatePrimitive_eq_ok hv).2,
        toJson_of_translatePrimitive hv', Option.getD_some]
  | array item =>
    obtain ⟨items, values, hsource, rfl, hvalues⟩ := of_answer_array_eq_ok hshape hv
    refine renews_list hshape fun v i hi => ?_
    obtain ⟨x, hx, hanswer⟩ := exists_of_forall₂_zipIdx hvalues hi
    have hmem : (x, i) ∈ (stripRest items).zipIdx := List.mem_zipIdx_iff_getElem?.mpr hx
    exact ih _ (.item hshape hsource hmem) rfl hanswer
  | nullable inner =>
    have hmem : inner ∈ (reg.shape r.id).samePath := by simp [hshape, Shape.samePath]
    rw [Renews, answer_nullable (r := r.withSource (some (v.toJson true))) hshape]
    rcases of_answer_nullable_eq_ok hshape hv with ⟨-, rfl⟩ | ⟨hpresent, hanswer⟩
    · exact ⟨.null, rfl, rfl⟩
    · obtain ⟨v', hv', heq⟩ := ih _ (.samePath hmem) hpreset hanswer
      have hnot : (some (v.toJson true)).all Json.isNull ≠ true := by
        rw [ne_eq, Json.all_isNull_iff_headOf]
        show (v.toJson true).head ≠ .null
        rw [hhead, ne_eq, ← Json.all_isNull_iff_headOf, hpresent]
        exact Bool.false_ne_true
      have hinner : reg.answer limit ((r.withSource (some (v.toJson true))).as inner) = .ok v' :=
        hv'
      refine ⟨v', ?_, heq⟩
      rw [hinner]
      exact if_neg hnot
  | union alternatives =>
    rw [Renews, answer_union (r := r.withSource (some (v.toJson true))) hshape]
    rw [answer_union hshape] at hv
    rcases firstAccepted_cases r.path (reg.exhausted r.id r.path r.source)
      (fun a => reg.answer limit (r.as a)) alternatives with
      ⟨before, a, after, rfl, hbefore, -, heq⟩ | ⟨-, heq⟩
    · have hmem : a ∈ (reg.shape r.id).samePath := by simp [hshape, Shape.samePath]
      obtain ⟨v', hv', hwritten⟩ := ih _ (.samePath hmem) hpreset (heq.symm.trans hv)
      refine ⟨v', ?_, hwritten⟩
      -- The alternatives before are rejected again, for they only look at the head.
      rw [firstAccepted_append, firstAccepted]
      · rw [show reg.answer limit ((r.withSource (some (v.toJson true))).as a) = .ok v' from hv']
      · intro b hb
        have hsame : headOf (some (v.toJson true)) = headOf (r.as b).source := hhead
        exact (rejects_iff_of_head h.byHead (r.as b) hsame).mpr (hbefore b hb)
    · rw [heq] at hv
      cases hv
  | product p =>
    obtain ⟨n, rfl⟩ := exists_node_of_product hshape hv
    obtain ⟨record, hbuilds⟩ := exists_builds_of_product h.planned hshape hv
    exact h.renews_node hbuilds hpreset fun field source path v hanswer =>
      ih _ (.field hbuilds.within) rfl hanswer
  | nameSet =>
    rw [hshape] at hid
    cases hid
  | inspect i =>
    rw [hshape] at hid
    cases hid

/-- Every node of a translated source is well named. -/
theorem allNodes_wellNamed {id : TypeId} {source : Json} {v : Value}
    (hv : reg.translate limit id source = .ok v) : v.AllNodes Node.WellNamed := by
  intro n hn
  obtain ⟨s, record, p, -, hbuilds⟩ :=
    exists_builds_of_translate h.planned h.spares h.rule hv hn
  exact h.wellNamed hbuilds

/-- A translated source that is written back is translated again. The result is written like the
value without rest elements, which is how the value was written only if there are none. -/
theorem translate_toJson {id : TypeId} {source : Json} {v : Value}
    (hv : reg.translate limit id source = .ok v) :
    ∃ v', reg.translate limit id (v.toJson true) = .ok v' ∧
      v'.toJson true = v.withoutRest.toJson true ∧
      (v'.toJson true = v.toJson true ↔ ¬ v.HasRest) := by
  have hid : reg.contains id = true := by
    by_contra hid
    rw [translate, if_neg hid] at hv
    cases hv
  obtain ⟨v', hv', hwritten⟩ :=
    h.renews (.whole id source) rfl (answer_of_translate_eq_ok hv)
  refine ⟨v', ?_, hwritten, ?_⟩
  · rw [translate_eq, if_pos hid]
    exact hv'
  · rw [hwritten]
    refine ⟨Value.not_hasRest_of_toJson_eq (h.allNodes_wellNamed hv), fun hrest => ?_⟩
    rw [Value.withoutRest_eq_self hrest]

end Mirrors

/-! ### Checks -/

/-- Whether a value is read back at a type of this shape: `null`, a plain value of the right kind,
or an empty list. -/
def isReread (shape : Shape) (d : Value) : Bool :=
  d.isNull ||
    match shape with
    | .primitive kind => kind != .any && kind.holds d
    | .array _ => d.asList?.any List.isEmpty
    | _ => false

theorem rereads_of_isReread {type : TypeId} {d : Value}
    (h : isReread (reg.shape type) d = true) : reg.Rereads type d ∧ ∀ n : Node, ¬ n.OccursIn d := by
  rcases Bool.or_eq_true_iff.mp h with hnull | hmatch
  · cases d <;> cases hnull
    exact ⟨fun hpresent => (by cases hpresent), fun n => Value.Plain.null.not_occursIn⟩
  · split at hmatch
    · next kind hshape =>
      obtain ⟨hkind, hholds⟩ := Bool.and_eq_true_iff.mp hmatch
      have hne : kind ≠ .any := by simpa using hkind
      have hplain : d.Plain := Primitive.plain_of_holds hne hholds
      refine ⟨fun _ limit path depth => ?_, fun n => hplain.not_occursIn⟩
      obtain ⟨d', hd'⟩ : ∃ d', reg.translatePrimitive type kind (some (d.toJson true)) path =
          .ok d' := by
        rw [exists_translatePrimitive_iff, Option.getD_some]
        exact Primitive.accepts_toJson hne hholds
      refine ⟨d', (answer_primitive hshape).trans hd', ?_⟩
      rw [toJson_of_translatePrimitive hd', Value.withoutRest_of_plain hplain, Option.getD_some]
    · next item hshape =>
      obtain rfl : d = .list [] := by
        cases d with
        | list items =>
          cases items with
          | nil => rfl
          | cons => cases hmatch
        | null | bool | number | string | any | names | node => cases hmatch
      refine ⟨fun _ limit path depth => ⟨.list [], answer_array hshape, rfl⟩, fun n hn => ?_⟩
      obtain ⟨v, hv, -⟩ := Node.occursIn_list_iff.mp hn
      cases hv
    · cases hmatch

/-- Whether a field mirrors what it reads. -/
def isMirror (reg : Registry) (field : Field) : Bool :=
  (match field.source with
    | .key key => key == field.name
    | .extract _ => false) &&
  (field.name != "type" && !Metadata.keys.contains field.name) &&
  match field.population with
  | .required => true
  | .default d => isReread (reg.shape field.type) d
  | .computed _ => false

/-- Whether all types mirror what they read. -/
def mirrorsSources (reg : Registry) : Bool :=
  reg.ids.all fun id => goesByHead (reg.shape id) &&
    match (reg.shape id).asProduct? with
    | some p => p.source.tag == reg.name id && p.fields.all reg.isMirror
    | none => true

theorem mirrors_of_mirrorsSources (hplan : reg.Planned) (h : reg.mirrorsSources = true) :
    reg.Mirrors := by
  have hproduct : ∀ {id p}, reg.shape id = .product p →
      p.source.tag = reg.name id ∧ ∀ field ∈ p.fields, reg.isMirror field = true := by
    intro id p hshape
    have hid := List.all_eq_true.mp h id (mem_ids_of_shape_ne (by simp [hshape]))
    rw [hshape, Bool.and_eq_true] at hid
    obtain ⟨htag, hfields⟩ := Bool.and_eq_true_iff.mp hid.2
    exact ⟨eq_of_beq htag, List.all_eq_true.mp hfields⟩
  have hfield : ∀ {id p field}, reg.shape id = .product p → field ∈ p.fields →
      field.source = .key field.name ∧ (field.name ≠ "type" ∧ field.name ∉ Metadata.keys) ∧
        field.rule? = none ∧ ∀ d, field.population = .default d →
          reg.Rereads field.type d ∧ ∀ n : Node, ¬ n.OccursIn d := by
    intro id p field hshape hmem
    have hcheck := (hproduct hshape).2 field hmem
    obtain ⟨hcheck, hpopulation⟩ := Bool.and_eq_true_iff.mp hcheck
    obtain ⟨hsource, hname⟩ := Bool.and_eq_true_iff.mp hcheck
    refine ⟨?_, by simpa using hname, ?_, ?_⟩
    · split at hsource
      · next key hkey => rw [hkey, eq_of_beq hsource]
      · cases hsource
    · rw [Field.rule?]
      split at hpopulation <;> simp_all
    · intro d hd
      rw [hd] at hpopulation
      exact rereads_of_isReread hpopulation
  exact {
    planned := hplan
    byHead := fun id => by
      by_cases hunion : reg.shape id = .union []
      · rw [hunion]
        rfl
      · have hid := List.all_eq_true.mp h id (mem_ids_of_shape_ne hunion)
        exact (Bool.and_eq_true_iff.mp hid).1
    tag := fun hshape => (hproduct hshape).1
    source := fun hshape hmem => (hfield hshape hmem).1
    apart := fun hshape hmem => (hfield hshape hmem).2.1
    rule := fun hshape hmem => (hfield hshape hmem).2.2.1
    default := fun hshape hmem hd => ((hfield hshape hmem).2.2.2 _ hd).1
    spares := fun hshape hmem hd => ((hfield hshape hmem).2.2.2 _ hd).2 }

end Registry

end TypedTree
