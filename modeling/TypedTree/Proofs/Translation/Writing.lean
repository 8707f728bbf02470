/-
What a record that is written for a node says of it.

The name of the type, the fields and the metadata of a node go into one record, one after the
other. Main statements:

* `Node.written`, `Node.toJson_eq_written` — the record, with or without metadata;
* `Node.Keyed.get?_written`, `Node.Keyed.keys_written` — what stands under each key, and which keys
  there are;
* `Node.Faithful`, `Node.Keyed.faithful_iff` — a record says what the node is if and only if its
  parts do not meet under one key;
* `Registry.written_of_translate` — so it is for every node of a translated source;
* `Registry.written_over` — a schema may be frozen although a field is then written over, or is
  written over the name of the type.

Design notes: a node holds its fields under distinct names. For nodes that are built this follows
from the plan of their product; for those in defaults and those that rules make it is a condition.
-/
import TypedTree.Proofs.Rendering
import TypedTree.Proofs.Translation.Bounded
import TypedTree.Proofs.Translation.Origin
import TypedTree.Proofs.Translation.Population

namespace TypedTree

namespace Node

variable {n : Node} {m : Bool}

/-- The entries of the metadata, if it is wanted. -/
def furtherEntries (n : Node) (withMetadata : Bool) : Json.Record :=
  if withMetadata then n.metadata.elim [] Metadata.toRecord else []

/-- The record that a node is written as. -/
def written (n : Node) (withMetadata : Bool) : Json.Record :=
  Entries.extend (Entries.extend [("type", .str n.typeName)]
    (Value.fieldsToJson withMetadata n.fields)) (n.furtherEntries withMetadata)

theorem toJson_eq_written (n : Node) (m : Bool) : n.toValue.toJson m = .obj (n.written m) := by
  obtain ⟨id, typeName, fields, metadata⟩ := n
  cases m <;> cases metadata <;> rfl

theorem nodup_furtherEntries (n : Node) (m : Bool) : ((n.furtherEntries m).map (·.1)).Nodup := by
  rw [furtherEntries]
  split
  · cases n.metadata with
    | none => exact List.nodup_nil
    | some metadata => exact metadata.nodup_keys_toRecord
  · exact List.nodup_nil

theorem mem_keys_of_mem_furtherEntries {key : String}
    (h : key ∈ (n.furtherEntries m).map (·.1)) : key ∈ Metadata.keys := by
  rw [furtherEntries] at h
  split at h
  · cases hmetadata : n.metadata with
    | none =>
      rw [hmetadata] at h
      cases h
    | some metadata =>
      rw [hmetadata] at h
      exact Metadata.mem_keys_of_mem_toRecord h
  · cases h

theorem lookup_fieldsToJson (key : String) :
    (Value.fieldsToJson m n.fields).lookup key = (n.get? key).map (Value.toJson m) := by
  rw [Value.fieldsToJson_eq_map]
  exact lookup_map_snd (Value.toJson m) n.fields key

/-- The fields of a node have distinct names. -/
def Keyed (n : Node) : Prop := (n.fields.map (·.1)).Nodup

/-- A record says what the node is: the name of its type stands under `type`, and what each field
is written as under its name. The metadata only brings further keys. -/
structure Faithful (n : Node) : Prop where
  type : ∀ m, Json.Record.get? (n.written m) "type" = some (.str n.typeName)
  field : ∀ m name v, n.get? name = some v →
    Json.Record.get? (n.written m) name = some (v.toJson m)
  further : (n.written true).map (·.1) =
    (n.written false).map (·.1) ++ (n.furtherEntries true).map (·.1)

namespace Keyed

/-- Under a key stands an entry of the metadata, else a field, else the name of the type. -/
theorem get?_written (h : n.Keyed) (m : Bool) (key : String) :
    Json.Record.get? (n.written m) key = ((n.furtherEntries m).lookup key).or
      (((n.get? key).map (Value.toJson m)).or
        (if key = "type" then some (.str n.typeName) else none)) := by
  have hfields : ((Value.fieldsToJson m n.fields).map (·.1)).Nodup := by
    rw [Value.keys_fieldsToJson]
    exact h
  have htype : ([("type", Json.str n.typeName)] : Json.Record).lookup key =
      if key = "type" then some (.str n.typeName) else none := by
    by_cases hkey : key = "type" <;> simp [hkey, List.lookup_cons, beq_false_of_ne]
  rw [Json.Record.get?, written, Entries.lookup_extend (n.nodup_furtherEntries m),
    Entries.lookup_extend hfields, lookup_fieldsToJson, htype]

theorem mem_keys_written_iff (h : n.Keyed) {key : String} :
    key ∈ (n.written m).map (·.1) ↔ key ∈ (n.furtherEntries m).map (·.1) ∨
      key ∈ n.fields.map (·.1) ∨ key = "type" := by
  rw [mem_keys_iff, mem_keys_iff, mem_keys_iff, ← Json.Record.get?, h.get?_written]
  have hfield : n.get? key = n.fields.lookup key := rfl
  by_cases hkey : key = "type" <;> simp [hkey, ← hfield]

/-- With metadata there are the same keys, and after them those of the metadata that are not there
yet. -/
theorem keys_written (h : n.Keyed) : (n.written true).map (·.1) = (n.written false).map (·.1) ++
    ((n.furtherEntries true).map (·.1)).filter (· ∉ (n.written false).map (·.1)) := by
  have hplain : ((Entries.extend [("type", Json.str n.typeName)]
      (Value.fieldsToJson true n.fields)).map (·.1)) = (n.written false).map (·.1) := by
    have hfields : ∀ m, ((Value.fieldsToJson m n.fields).map (·.1)).Nodup := fun m => by
      rw [Value.keys_fieldsToJson]
      exact h
    rw [Entries.keys_extend (hfields true), Value.keys_fieldsToJson,
      ← Value.keys_fieldsToJson false, ← Entries.keys_extend (hfields false)]
    rfl
  rw [written, Entries.keys_extend (n.nodup_furtherEntries true), hplain]

/-- A record says what the node is if and only if a field with the name `type` is written as the
name of the type, and no entry of the metadata has the key of a field. -/
theorem faithful_iff (h : n.Keyed) : n.Faithful ↔
    (∀ v, n.get? "type" = some v → ∀ m, v.toJson m = .str n.typeName) ∧
      ∀ key ∈ (n.furtherEntries true).map (·.1), key ∉ n.fields.map (·.1) := by
  have htype : ∀ m, (n.furtherEntries m).lookup "type" = none := by
    intro m
    rw [← Option.not_isSome_iff_eq_none, ← mem_keys_iff]
    exact fun hmem => absurd (mem_keys_of_mem_furtherEntries hmem) (by decide)
  constructor
  · intro hfaithful
    constructor
    · intro v hv m
      have hfield := hfaithful.field m "type" v hv
      rw [hfaithful.type m] at hfield
      exact (Option.some.inj hfield).symm
    · intro key hkey hmem
      -- A key that was there is not among those that come to them.
      have hfurther := hfaithful.further
      rw [h.keys_written, List.append_cancel_left_eq, List.filter_eq_self] at hfurther
      have hnot := hfurther key hkey
      rw [decide_eq_true_iff, h.mem_keys_written_iff] at hnot
      exact hnot (.inr (.inl hmem))
  · rintro ⟨hnamed, hapart⟩
    refine ⟨fun m => ?_, fun m name v hv => ?_, ?_⟩
    · rw [h.get?_written, htype, Option.none_or, if_pos rfl]
      cases hv : n.get? "type" with
      | none => rfl
      | some v => simp [hnamed v hv m]
    · have hmem : name ∈ n.fields.map (·.1) := by
        rw [mem_keys_iff]
        exact Option.isSome_iff_exists.mpr ⟨v, hv⟩
      have hfurther : (n.furtherEntries m).lookup name = none := by
        rw [← Option.not_isSome_iff_eq_none, ← mem_keys_iff]
        intro hkey
        cases m with
        | true => exact hapart name hkey hmem
        | false => cases hkey
      rw [h.get?_written, hfurther, hv]
      rfl
    · rw [h.keys_written, List.append_cancel_left_eq, List.filter_eq_self]
      intro key hkey
      rw [decide_eq_true_iff, h.mem_keys_written_iff]
      rintro (hnone | hmem | rfl)
      · cases hnone
      · exact hapart key hkey hmem
      · exact absurd (mem_keys_of_mem_furtherEntries hkey) (by decide)

end Keyed

end Node

namespace Registry

/-! ### Nodes of a translated source -/

theorem Builds.keyed {reg : Registry} {limit : Nat} {s : Request} {record : Json.Record}
    {p : Product} {n : Node} (hplan : reg.Planned) (h : reg.Builds limit s record p n) :
    n.Keyed := by
  rw [Node.Keyed, h.names hplan]
  exact (Product.of_plan_eq_ok (hplan h.shape)).1

/-- Every node of a translated source is written as a record that has its metadata before its
fields and these before the name of the type. This says what the node is if and only if no two of
them meet under one key. -/
theorem written_of_translate {b : Builder} {reg : Registry} (h : b.freeze = .ok reg)
    (hpop : reg.Populated fun _ v => v.AllNodes Node.Keyed) {limit : Nat} {id : TypeId}
    {source : Json} {v : Value} (hv : reg.translate limit id source = .ok v) {n : Node}
    (hn : n.OccursIn v) :
    (∀ m, n.toValue.toJson m = .obj (n.written m) ∧
      ∀ key, Json.Record.get? (n.written m) key = ((n.furtherEntries m).lookup key).or
        (((n.get? key).map (Value.toJson m)).or
          (if key = "type" then some (.str n.typeName) else none))) ∧
      ((n.written true).map (·.1) = (n.written false).map (·.1) ++
        ((n.furtherEntries true).map (·.1)).filter (· ∉ (n.written false).map (·.1))) ∧
      (n.Faithful ↔ (∀ w, n.get? "type" = some w → ∀ m, w.toJson m = .str n.typeName) ∧
        ∀ key ∈ (n.furtherEntries true).map (·.1), key ∉ n.fields.map (·.1)) := by
  have hplan : reg.Planned := Builder.planned_of_freeze h
  have hkeyed : n.Keyed :=
    allNodes_of_populated hplan hpop (fun _ hbuilds => hbuilds.keyed hplan) (.whole id source) v
      .refl nofun (answer_of_translate_eq_ok hv) n hn
  exact ⟨fun m => ⟨n.toJson_eq_written m, hkeyed.get?_written m⟩, hkeyed.keys_written,
    hkeyed.faithful_iff⟩

/-! ### Fields that are written over -/

/-- A schema with one product, of one field. -/
def oneField (name : String) : Builder := { declarations := [
  { name := "string", body := some (.primitive .string) },
  { name := "Leaf", body := some (.product {
      source := { tag := "Leaf" }, fields := [(Field.required name ⟨0⟩).fromKey "from"] }) }] }

/-- A record with a position. -/
def placedSource : Json :=
  .obj [("type", .str "Leaf"), ("from", .str "x"), ("start", .num (.int 5))]

/-- A schema with one field translates the record to a node that passes a check. -/
theorem exists_placed {name : String} {check : Node → Bool}
    (h : passes (oneField name).freeze (fun reg => reg.populatesWithin 1 &&
      reg.translatesWithin 256 5 ⟨1⟩ placedSource (fun v => v.asNode?.any check)) = true) :
    ∃ reg n, (oneField name).freeze = .ok reg ∧
      (reg.Populated fun _ v => v.AllNodes Node.Keyed) ∧
      reg.translate 256 ⟨1⟩ placedSource = .ok n.toValue ∧ check n = true := by
  obtain ⟨reg, hreg, hcheck⟩ := exists_of_check h
  obtain ⟨hpop, htranslates⟩ := Bool.and_eq_true_iff.mp hcheck
  obtain ⟨v, hv, hnode⟩ := exists_of_translatesWithin htranslates
  obtain ⟨n, hn, hn'⟩ := (Option.any_eq_true _ _).mp hnode
  rw [Value.eq_of_asNode?_eq_some hn] at hv
  exact ⟨reg, n, hreg, structural_allNodes.populated hpop, hv, hn'⟩

/-- A field that no entry of the metadata meets is found in the record. -/
theorem written_of_translate_value : ∃ (reg : Registry) (n : Node),
    (oneField "value").freeze = .ok reg ∧
    reg.translate 256 ⟨1⟩ placedSource = .ok n.toValue ∧ n.Faithful := by
  obtain ⟨reg, n, hreg, hpop, hv, hnames⟩ :
      ∃ (reg : Registry) (n : Node), (oneField "value").freeze = .ok reg ∧ _ ∧ _ ∧
        (n.fields.map (·.1) == ["value"]) = true :=
    exists_placed (by decide +kernel)
  refine ⟨reg, n, hreg, hv, (written_of_translate hreg hpop hv (.here n)).2.2.mpr ⟨?_, ?_⟩⟩
  · intro w hw
    have hmem := List.mem_map_of_mem (f := Prod.fst) (mem_of_lookup_eq_some hw)
    rw [eq_of_beq hnames] at hmem
    simp at hmem
  · intro key hkey
    have hmetadata := Node.mem_keys_of_mem_furtherEntries hkey
    rw [eq_of_beq hnames]
    intro hvalue
    rw [List.mem_singleton.mp hvalue] at hmetadata
    exact absurd hmetadata (by decide)

/-- The metadata may be written over a field, and a field over the name of the type. -/
theorem written_over :
    (¬ ∀ (b : Builder) (reg : Registry) (limit : Nat) (id : TypeId) (source : Json) (v : Value)
      (n : Node), b.freeze = .ok reg → reg.translate limit id source = .ok v → n.OccursIn v →
      n.get? "type" = none → n.Faithful) ∧
    ¬ ∀ (b : Builder) (reg : Registry) (limit : Nat) (id : TypeId) (source : Json) (v : Value)
      (n : Node), b.freeze = .ok reg → reg.translate limit id source = .ok v → n.OccursIn v →
      ∃ record, n.toValue.toJson false = .obj record ∧
        Json.Record.get? record "type" = some (.str n.typeName) := by
  constructor
  · intro h
    obtain ⟨reg, n, hreg, -, hv, hcheck⟩ :
        ∃ (reg : Registry) (n : Node), (oneField "start").freeze = .ok reg ∧ _ ∧ _ ∧
          ((n.get? "type").isNone && (n.get? "start").any (·.asString?.isSome) &&
            (Json.Record.get? (n.written true) "start").any (·.asString?.isNone)) = true :=
      exists_placed (by decide +kernel)
    simp only [Bool.and_eq_true] at hcheck
    obtain ⟨⟨htype, hfield⟩, hwritten⟩ := hcheck
    obtain ⟨w, hw, hstring⟩ := (Option.any_eq_true _ _).mp hfield
    have hfaithful := h _ reg 256 _ _ _ n hreg hv (.here n) (Option.isNone_iff_eq_none.mp htype)
    rw [hfaithful.field true "start" w hw] at hwritten
    cases w with
    | string text => simp [Value.toJson, Json.asString?] at hwritten
    | null | bool | number | any | list | names | node => cases hstring
  · intro h
    obtain ⟨reg, n, hreg, -, hv, hcheck⟩ :
        ∃ (reg : Registry) (n : Node), (oneField "type").freeze = .ok reg ∧ _ ∧ _ ∧
          (n.typeName == "Leaf" &&
            (Json.Record.get? (n.written false) "type").any (·.asString? == some "x")) = true :=
      exists_placed (by decide +kernel)
    obtain ⟨hname, hwritten⟩ := Bool.and_eq_true_iff.mp hcheck
    obtain ⟨record, hrecord, htype⟩ := h _ reg 256 _ _ _ n hreg hv (.here n)
    rw [n.toJson_eq_written false] at hrecord
    cases hrecord
    rw [htype, eq_of_beq hname] at hwritten
    cases hwritten

end Registry

end TypedTree
