/-
Nodes written back as records.

Main statements:

* `Node.toRecord` — the record that a node is written as;
* `Node.WellNamed` — the fields of a node have distinct names, which are not used otherwise;
* `Node.WellNamed.tag?_toRecord`, `Node.WellNamed.get?_toRecord` — then the name of the type and
  the fields are found again in the record;
* `Node.WellNamed.ofRecord?_toRecord` — and so is the metadata.

Design notes: all three parts of a node go into one record, so a field with the name of an entry
of the metadata, or with the name `type`, would be lost.
-/
import TypedTree.Proofs.Entries
import TypedTree.Proofs.Metadata
import TypedTree.Value.Basic

namespace TypedTree

namespace Value

theorem itemsToJson_eq_map (withMetadata : Bool) (items : List Value) :
    itemsToJson withMetadata items = items.map (toJson withMetadata) := by
  induction items with
  | nil => rfl
  | cons item items ih => rw [itemsToJson, ih, List.map_cons]

theorem fieldsToJson_eq_map (withMetadata : Bool) (fields : List (String × Value)) :
    fieldsToJson withMetadata fields =
      fields.map fun entry => (entry.1, toJson withMetadata entry.2) := by
  induction fields with
  | nil => rfl
  | cons entry fields ih => rw [fieldsToJson, ih, List.map_cons]

theorem keys_fieldsToJson (withMetadata : Bool) (fields : List (String × Value)) :
    (fieldsToJson withMetadata fields).map (·.1) = fields.map (·.1) := by
  rw [fieldsToJson_eq_map, List.map_map]
  rfl

end Value

namespace Node

variable {n : Node}

/-- The record that a node is written as, with its metadata. -/
def toRecord (n : Node) : Json.Record :=
  Entries.extend (Entries.extend [("type", .str n.typeName)] (Value.fieldsToJson true n.fields))
    (n.metadata.elim [] Metadata.toRecord)

theorem toJson_toValue (n : Node) : n.toValue.toJson true = .obj n.toRecord := by
  obtain ⟨id, typeName, fields, metadata⟩ := n
  cases metadata <;> rfl

/-- The fields of a node have distinct names, and none that is used for its type or in metadata. -/
structure WellNamed (n : Node) : Prop where
  nodup : (n.fields.map (·.1)).Nodup
  apart : ∀ name ∈ n.fields.map (·.1), name ≠ "type" ∧ name ∉ Metadata.keys

namespace WellNamed

/-- Outside of the keys of metadata, the record has the type and the fields. -/
theorem get?_toRecord_of_not_mem {key : String} (hkey : key ∉ Metadata.keys) :
    Json.Record.get? n.toRecord key =
      (Entries.extend [("type", .str n.typeName)]
        (Value.fieldsToJson true n.fields)).lookup key := by
  refine Entries.lookup_extend_of_not_mem fun hmem => ?_
  cases hmetadata : n.metadata with
  | none =>
    rw [hmetadata] at hmem
    cases hmem
  | some m =>
    rw [hmetadata] at hmem
    exact hkey (Metadata.mem_keys_of_mem_toRecord hmem)

theorem tag?_toRecord (h : n.WellNamed) : Json.Record.tag? n.toRecord = some n.typeName := by
  have htype : "type" ∉ (Value.fieldsToJson true n.fields).map (·.1) := by
    rw [Value.keys_fieldsToJson]
    exact fun hmem => (h.apart "type" hmem).1 rfl
  rw [Json.Record.tag?, get?_toRecord_of_not_mem (by decide),
    Entries.lookup_extend_of_not_mem htype]
  rfl

theorem get?_toRecord (h : n.WellNamed) {name : String} {v : Value}
    (hv : n.get? name = some v) : Json.Record.get? n.toRecord name = some (v.toJson true) := by
  have hmem : (name, v) ∈ n.fields := mem_of_lookup_eq_some hv
  have hname : name ∈ n.fields.map (·.1) := List.mem_map.mpr ⟨_, hmem, rfl⟩
  rw [get?_toRecord_of_not_mem (h.apart name hname).2]
  refine Entries.lookup_extend_of_mem ?_ ?_
  · rw [Value.keys_fieldsToJson]
    exact h.nodup
  · rw [Value.fieldsToJson_eq_map]
    exact List.mem_map.mpr ⟨_, hmem, rfl⟩

/-- The keys of metadata have what was written for them. -/
theorem get?_toRecord_of_mem (h : n.WellNamed) {key : String} (hkey : key ∈ Metadata.keys) :
    Json.Record.get? n.toRecord key =
      Json.Record.get? (n.metadata.elim [] Metadata.toRecord) key := by
  have hbase : (Entries.extend [("type", .str n.typeName)]
      (Value.fieldsToJson true n.fields)).lookup key = none := by
    rw [Entries.lookup_extend_of_not_mem]
    · rw [List.lookup_cons, beq_false_of_ne]
      · rfl
      · rintro rfl
        exact absurd hkey (by decide)
    · rw [Value.keys_fieldsToJson]
      exact fun hmem => (h.apart key hmem).2 hkey
  rw [toRecord, Json.Record.get?, Json.Record.get?]
  cases hget : (n.metadata.elim [] Metadata.toRecord).lookup key with
  | none =>
    rw [Entries.lookup_extend_of_not_mem, hbase]
    rw [mem_keys_iff, hget]
    simp
  | some value =>
    refine Entries.lookup_extend_of_mem ?_ (mem_of_lookup_eq_some hget)
    cases n.metadata with
    | none => exact List.nodup_nil
    | some m => exact m.nodup_keys_toRecord

/-- The metadata that was read from a record is read back from what is written. -/
theorem ofRecord?_toRecord (h : n.WellNamed) {record : Json.Record}
    (hmetadata : n.metadata = Metadata.ofRecord? record) :
    Metadata.ofRecord? n.toRecord = n.metadata := by
  rw [Metadata.ofRecord?_congr fun key hkey => h.get?_toRecord_of_mem hkey]
  cases hm : n.metadata with
  | none => rfl
  | some m =>
    rw [hm] at hmetadata
    exact Metadata.ofRecord?_toRecord hmetadata.symm

end WellNamed

end Node

end TypedTree
