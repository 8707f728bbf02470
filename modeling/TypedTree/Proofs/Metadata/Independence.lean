/-
Entries of metadata, each on its own.

Main statements:

* `Metadata.Entry` — the six entries, `Metadata.Entry.key` — the key under which each stands;
* `Metadata.Entry.Same` — an entry is the same here and there, `Metadata.Entry.Usable` — a record
  has a value for it that can be read;
* `Metadata.same_entries` — an entry depends on the value under its own key alone;
* `Metadata.ofRecord?_eq_none_iff` — a record has no metadata if and only if no entry is usable;
* `Metadata.rereads_and_independent` — metadata is read back from what is written of it, and what
  stands under the key of one entry has no say in the others.
-/
import TypedTree.Proofs.Entries
import TypedTree.Proofs.Metadata

namespace TypedTree

namespace Metadata

/-- The entries that metadata may have. -/
inductive Entry where
  | leading
  | inner
  | trailing
  | start
  | finish
  | location
deriving DecidableEq

namespace Entry

/-- The key under which an entry stands in a record. -/
def key : Entry → String
  | leading => "leadingComments"
  | inner => "innerComments"
  | trailing => "trailingComments"
  | start => "start"
  | finish => "end"
  | location => "loc"

/-- An entry is the same in both. -/
def Same (m m' : Metadata) : Entry → Prop
  | leading => m.leading = m'.leading
  | inner => m.inner = m'.inner
  | trailing => m.trailing = m'.trailing
  | start => m.start = m'.start
  | finish => m.finish = m'.finish
  | location => m.location = m'.location

/-- Whether a value can be read for an entry. -/
def reads (value : Json) : Entry → Bool
  | leading | inner | trailing => (readComments? value).isSome
  | start | finish => (readOffset? value).isSome
  | location => (Location.ofJson? value).isSome

/-- A record has a value for an entry that can be read. -/
def Usable (record : Json.Record) (entry : Entry) : Prop :=
  ∃ value, record.get? entry.key = some value ∧ entry.reads value = true

theorem key_injective {entry other : Entry} (h : entry.key = other.key) : entry = other := by
  revert h
  cases entry <;> cases other <;> decide

end Entry

variable {record record' : Json.Record} {entry other : Entry}

/-- An entry depends on the value under its own key alone. -/
theorem same_entries (h : record.get? entry.key = record'.get? entry.key) :
    entry.Same (entries record) (entries record') := by
  cases entry <;> exact congrArg (Option.bind · _) h

/-- What a record has of metadata, which is nothing if it has none. -/
def found (record : Json.Record) : Metadata := (ofRecord? record).getD {}

theorem found_eq (record : Json.Record) : found record = entries record := by
  rw [found, ofRecord?]
  split
  · next hempty => rw [Option.getD_none, hempty]
  · rfl

/-! ### Records without metadata -/

theorem entry?_eq_none_iff {α : Type} {read : Json → Option α} {key : String} :
    entry? read record key = none ↔
      ¬ ∃ value, record.get? key = some value ∧ (read value).isSome = true := by
  rw [ entry?]
  cases record.get? key with
  | none => simp
  | some value => simp

/-- A record has no metadata if and only if none of its entries is usable. -/
theorem ofRecord?_eq_none_iff :
    ofRecord? record = none ↔ ∀ entry : Entry, ¬ entry.Usable record := by
  have hnone : ofRecord? record = none ↔ entries record = {} := by
    rw [ofRecord?]
    split <;> simp_all
  rw [hnone, entries, Metadata.mk.injEq]
  simp only [entry?_eq_none_iff]
  constructor
  · rintro ⟨hleading, hinner, htrailing, hstart, hfinish, hlocation⟩ entry
    cases entry <;> assumption
  · intro h
    exact ⟨h .leading, h .inner, h .trailing, h .start, h .finish, h .location⟩

/-! ### Changes of one entry -/

/-- Metadata is read back from what is written of it. Any other value under the key of one entry,
or none, leaves the other five as they are. A record has no metadata if and only if none of the six
is usable. -/
theorem rereads_and_independent (record : Json.Record) :
    (∀ m, ofRecord? record = some m → ofRecord? m.toRecord = some m) ∧
    (∀ entry other : Entry, other ≠ entry →
      (∀ value, other.Same (found (Entries.set record entry.key value)) (found record)) ∧
      other.Same (found (Entries.erase record entry.key)) (found record)) ∧
    (ofRecord? record = none ↔ ∀ entry : Entry, ¬ entry.Usable record) := by
  refine ⟨fun m => ofRecord?_toRecord, fun entry other hother => ?_, ofRecord?_eq_none_iff⟩
  have hkey : other.key ≠ entry.key := fun h => hother (Entry.key_injective h)
  rw [found_eq, found_eq]
  refine ⟨fun value => ?_, same_entries ?_⟩
  · rw [found_eq]
    exact same_entries ((Entries.lookup_set ..).trans (if_neg hkey))
  · exact (Entries.lookup_erase ..).trans (if_neg hkey)

/-! ### A record in both forms -/

/-- A record with a block comment and a location that are arrays of their parts, a comment of an
unknown kind that is an object, offsets, and comments behind it that cannot be read. -/
def mixedRecord : Json.Record := [
  ("leadingComments", .arr [.obj [("type", .str "Line"), ("value", .str "before"),
    ("end", .num (.int 6))]]),
  ("innerComments", .arr [.arr [.str "CommentBlock", .str "inside", .num (.int 7),
    .num (.int 17)]]),
  ("trailingComments", .arr [.arr [.str "CommentBlock"]]),
  ("start", .num (.int 6)), ("end", .num (.int 20)),
  ("loc", .arr [.arr [.num (.int 1), .num (.int 6)], .obj [("line", .num (.int 2)),
    ("column", .num (.int 3))]])]

/-- What is read of it. -/
def mixed : Metadata where
  leading := some [{ kind := .line, text := "before", finish := some 6 }]
  inner := some [{ kind := .block, text := "inside", start := some 7, finish := some 17 }]
  start := some 6
  finish := some 20
  location := some ⟨⟨1, 6⟩, ⟨2, 3⟩⟩

/-- What is written of that: objects only, and nothing for the comments behind. -/
def mixedWritten : Json.Record := [
  ("leadingComments", .arr [.obj [("type", .str "CommentLine"), ("value", .str "before"),
    ("end", .num (.int 6))]]),
  ("innerComments", .arr [.obj [("type", .str "CommentBlock"), ("value", .str "inside"),
    ("start", .num (.int 7)), ("end", .num (.int 17))]]),
  ("start", .num (.int 6)), ("end", .num (.int 20)),
  ("loc", .obj [("start", .obj [("line", .num (.int 1)), ("column", .num (.int 6))]),
    ("end", .obj [("line", .num (.int 2)), ("column", .num (.int 3))])])]

/-- The record is read, written as objects and read again. The comments behind it cost none of its
other entries, and nor does anything that stands in their place. -/
theorem rereads_and_independent_mixed : ofRecord? mixedRecord = some mixed ∧
    mixed.toRecord = mixedWritten ∧ ofRecord? mixedWritten = some mixed ∧
    ¬ Entry.trailing.Usable mixedRecord ∧
    ∀ entry : Entry, entry ≠ .trailing → entry.Usable mixedRecord ∧
      ∀ value, entry.Same (found (Entries.set mixedRecord "trailingComments" value)) mixed := by
  have hread : ofRecord? mixedRecord = some mixed := by decide
  have hwritten : mixed.toRecord = mixedWritten := rfl
  obtain ⟨hrereads, hindependent, -⟩ := rereads_and_independent mixedRecord
  have hfound : found mixedRecord = mixed := by rw [found, hread, Option.getD_some]
  refine ⟨hread, hwritten, hwritten ▸ hrereads mixed hread, ?_, fun entry hentry => ⟨?_, ?_⟩⟩
  · -- A comment needs a kind and a text; the one behind has no text.
    rintro ⟨value, hvalue, hreads⟩
    cases hvalue
    cases hreads
  · cases entry <;> first | exact absurd rfl hentry | exact ⟨_, rfl, by decide⟩
  · intro value
    have hsame := (hindependent .trailing entry hentry).1 value
    rwa [hfound] at hsame

end Metadata

end TypedTree
