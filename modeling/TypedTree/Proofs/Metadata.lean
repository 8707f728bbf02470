/-
What is written of metadata, and what is read back.

Main statements:

* `Metadata.entries_congr` — only six keys of a record count;
* `Metadata.lookup_present` — entries that may be left out, looked up by key;
* `Comment.ofJson?_toJson` and its neighbours — a part that is written is read back;
* `Metadata.entries_toRecord`, `Metadata.ofRecord?_toRecord` — so are the six entries of a record.

Design notes: an optional entry is written or left out, and it is looked up in both cases alike,
so nothing has to be told apart by which entries are there.
-/
import TypedTree.Proofs.Traversal
import TypedTree.Value.Metadata

namespace TypedTree

namespace Metadata

/-- The keys under which metadata stands. -/
def keys : List String :=
  ["leadingComments", "innerComments", "trailingComments", "start", "end", "loc"]

theorem entries_congr {record record' : Json.Record}
    (h : ∀ key ∈ keys, record.get? key = record'.get? key) : entries record = entries record' := by
  simp only [keys, List.forall_mem_cons] at h
  obtain ⟨hleading, hinner, htrailing, hstart, hend, hloc, -⟩ := h
  simp only [entries, entry?, hleading, hinner, htrailing, hstart, hend, hloc]

theorem ofRecord?_congr {record record' : Json.Record}
    (h : ∀ key ∈ keys, record.get? key = record'.get? key) :
    ofRecord? record = ofRecord? record' := by
  rw [ofRecord?, ofRecord?, entries_congr h]

/-! ### Entries that may be left out -/

/-- The entries that have a value. -/
def present (entries : List (String × Option Json)) : Json.Record :=
  entries.filterMap fun entry => entry.2.map (entry.1, ·)

theorem present_append (entries more : List (String × Option Json)) :
    present (entries ++ more) = present entries ++ present more := List.filterMap_append

theorem optionalEntry_eq_present {α : Type} (key : String) (write : α → Json) (value : Option α) :
    optionalEntry key write value = present [(key, value.map write)] := by
  cases value <;> rfl

theorem keys_present (entries : List (String × Option Json)) :
    ((present entries).map (·.1)).Sublist (entries.map (·.1)) := by
  induction entries with
  | nil => exact .slnil
  | cons entry entries ih =>
    obtain ⟨key, value⟩ := entry
    cases value with
    | none => exact ih.cons key
    | some value => exact ih.cons_cons key

theorem lookup_present {entries : List (String × Option Json)}
    (hnodup : (entries.map (·.1)).Nodup) (key : String) :
    (present entries).lookup key = (entries.lookup key).getD none := by
  induction entries with
  | nil => rfl
  | cons entry entries ih =>
    obtain ⟨other, value⟩ := entry
    obtain ⟨hother, hnodup⟩ := List.nodup_cons.mp hnodup
    have ih := ih hnodup
    cases value with
    | none =>
      have hskip : present ((other, none) :: entries) = present entries := rfl
      rw [hskip, ih, List.lookup_cons]
      by_cases heq : key = other
      · subst heq
        have hnone : entries.lookup key = none := by
          rw [← Option.not_isSome_iff_eq_none, ← mem_keys_iff]
          exact hother
        simp [hnone]
      · simp [beq_false_of_ne heq]
    | some value =>
      have hkeep : present ((other, some value) :: entries) = (other, value) :: present entries :=
        rfl
      rw [hkeep, List.lookup_cons, List.lookup_cons, ih]
      by_cases heq : key = other
      · simp [heq]
      · simp [beq_false_of_ne heq]

/-- What may be left out is read back, if what is written is, and is not `null`. -/
theorem optional_map {α : Type} {read : Json → Option α} {write : α → Json}
    (hread : ∀ a, read (write a) = some a) (hnull : ∀ a, write a ≠ .null) (value : Option α) :
    optional read (value.map write) = some value := by
  cases value with
  | none => rfl
  | some a =>
    rw [Option.map_some, optional.eq_def]
    split
    · next hnone => cases hnone
    · next hsome => exact absurd (Option.some.inj hsome) (hnull a)
    · next heq =>
      cases heq
      rw [hread]
      rfl

/-! ### Parts -/

theorem readOffset?_writeOffset (n : UInt64) : readOffset? (writeOffset n) = some n := by
  have hlt : n.toNat < Nat.pow 2 64 := n.toNat_lt
  simp [readOffset?, writeOffset, Number.toNat?, hlt]

theorem readCount?_writeCount (n : UInt32) : readCount? (writeCount n) = some n := by
  have hlt : n.toNat < Nat.pow 2 32 := n.toNat_lt
  simp [readCount?, writeCount, Number.toNat?, hlt]

end Metadata

open Metadata

theorem Position.ofJson?_toJson (p : Position) : Position.ofJson? p.toJson = some p := by
  have hcomponents : components? ["line", "column"] 2 p.toJson =
      some [some (writeCount p.line), some (writeCount p.column)] := rfl
  rw [ofJson?, hcomponents]
  simp [required, readCount?_writeCount]

theorem Location.ofJson?_toJson (l : Location) : Location.ofJson? l.toJson = some l := by
  have hcomponents : components? ["start", "end"] 2 l.toJson =
      some [some l.start.toJson, some l.finish.toJson] := rfl
  rw [ofJson?, hcomponents]
  simp [required, Position.ofJson?_toJson]

theorem CommentKind.ofTag_tag (kind : CommentKind) : ofTag kind.tag = kind := by
  cases kind <;> rfl

/-- The entries of a comment, with those that may be left out. -/
def Comment.entries (c : Comment) : List (String × Option Json) := [
  ("type", some (.str c.kind.tag)), ("value", some (.str c.text)),
  ("start", c.start.map writeOffset), ("end", c.finish.map writeOffset),
  ("loc", c.location.map Location.toJson)]

theorem Comment.nodup_entries (c : Comment) : (c.entries.map (·.1)).Nodup := by
  show ["type", "value", "start", "end", "loc"].Nodup
  decide

theorem Comment.toJson_eq_present (c : Comment) : c.toJson = .obj (present c.entries) := by
  have hsplit : c.entries = [("type", some (.str c.kind.tag)), ("value", some (.str c.text))] ++
      [("start", c.start.map writeOffset)] ++ [("end", c.finish.map writeOffset)] ++
      [("loc", c.location.map Location.toJson)] := rfl
  rw [hsplit, present_append, present_append, present_append, toJson, optionalEntry_eq_present,
    optionalEntry_eq_present, optionalEntry_eq_present]
  rfl

theorem Comment.ofJson?_toJson (c : Comment) : Comment.ofJson? c.toJson = some c := by
  have hget (key : String) : (present c.entries).get? key = (c.entries.lookup key).getD none :=
    lookup_present c.nodup_entries key
  have hcomponents : components? ["type", "value", "start", "end", "loc"] 2 c.toJson =
      some [some (.str c.kind.tag), some (.str c.text), c.start.map writeOffset,
        c.finish.map writeOffset, c.location.map Location.toJson] := by
    rw [toJson_eq_present, components?]
    simp only [List.map_cons, List.map_nil, hget]
    rfl
  have hstart := optional_map readOffset?_writeOffset (fun _ => nofun) c.start
  have hfinish := optional_map readOffset?_writeOffset (fun _ => nofun) c.finish
  have hlocation := optional_map Location.ofJson?_toJson (fun _ => nofun) c.location
  rw [ofJson?, hcomponents]
  simp [required, Json.asString?, CommentKind.ofTag_tag, hstart, hfinish, hlocation]

theorem Metadata.readComments?_writeComments (comments : List Comment) :
    readComments? (writeComments comments) = some comments := by
  rw [writeComments, readComments?]
  induction comments with
  | nil => rfl
  | cons comment comments ih =>
    rw [List.map_cons, List.mapM_cons, Comment.ofJson?_toJson, ih]
    rfl

/-! ### Entries -/

namespace Metadata

/-- The entries of a record, with those that may be left out. -/
def optionalEntries (m : Metadata) : List (String × Option Json) := [
  ("leadingComments", m.leading.map writeComments), ("innerComments", m.inner.map writeComments),
  ("trailingComments", m.trailing.map writeComments), ("start", m.start.map writeOffset),
  ("end", m.finish.map writeOffset), ("loc", m.location.map Location.toJson)]

theorem nodup_optionalEntries (m : Metadata) : (m.optionalEntries.map (·.1)).Nodup := by
  show keys.Nodup
  decide

theorem toRecord_eq_present (m : Metadata) : m.toRecord = present m.optionalEntries := by
  have hsplit : m.optionalEntries = [("leadingComments", m.leading.map writeComments)] ++
      [("innerComments", m.inner.map writeComments)] ++
      [("trailingComments", m.trailing.map writeComments)] ++
      [("start", m.start.map writeOffset)] ++ [("end", m.finish.map writeOffset)] ++
      [("loc", m.location.map Location.toJson)] := rfl
  simp only [hsplit, present_append, toRecord, optionalEntry_eq_present]

theorem get?_toRecord (m : Metadata) (key : String) :
    Json.Record.get? m.toRecord key = (m.optionalEntries.lookup key).getD none := by
  rw [toRecord_eq_present]
  exact lookup_present m.nodup_optionalEntries key

theorem nodup_keys_toRecord (m : Metadata) : (m.toRecord.map (·.1)).Nodup := by
  rw [toRecord_eq_present]
  exact (keys_present m.optionalEntries).nodup m.nodup_optionalEntries

/-- Only keys of metadata are written. -/
theorem mem_keys_of_mem_toRecord {m : Metadata} {key : String}
    (h : key ∈ m.toRecord.map (·.1)) : key ∈ keys := by
  rw [toRecord_eq_present] at h
  exact (keys_present m.optionalEntries).subset h

/-- An entry that is written is read back. -/
theorem entry?_toRecord {α : Type} {read : Json → Option α} {write : α → Json}
    (hread : ∀ a, read (write a) = some a) {m : Metadata} {key : String} {value : Option α}
    (hkey : m.optionalEntries.lookup key = some (value.map write)) :
    entry? read m.toRecord key = value := by
  rw [ entry?, get?_toRecord, hkey]
  cases value with
  | none => rfl
  | some a => exact hread a

/-- Metadata that is written is read back. -/
theorem entries_toRecord (m : Metadata) : entries m.toRecord = m := by
  rw [entries, entry?_toRecord (m := m) readComments?_writeComments rfl,
    entry?_toRecord (m := m) readComments?_writeComments rfl,
    entry?_toRecord (m := m) readComments?_writeComments rfl,
    entry?_toRecord (m := m) readOffset?_writeOffset rfl,
    entry?_toRecord (m := m) readOffset?_writeOffset rfl,
    entry?_toRecord (m := m) Location.ofJson?_toJson rfl]

/-- The metadata of a record is read back from what is written of it. -/
theorem ofRecord?_toRecord {record : Json.Record} {m : Metadata} (h : ofRecord? record = some m) :
    ofRecord? m.toRecord = some m := by
  rw [ofRecord?] at h
  split at h
  · cases h
  · next hne =>
    cases h
    rw [ofRecord?, entries_toRecord]
    exact if_neg hne

end Metadata

end TypedTree
