/-
Source positions and comments carried by nodes.

Each of the six entries of a record is read on its own: a malformed one is left out
and does not touch the others. Main definitions:

* `Metadata.ofRecord?` — the usable entries of a record, or `none` if there is none;
* `Metadata.toRecord` — the entries present, in a fixed order.

Positions, locations and comments are read from an object, whose further keys are
ignored, or from an array of their components in declaration order, of which a
comment may leave out trailing optional ones.
-/
import TypedTree.Json.Basic

namespace TypedTree

/-- A place in a text. -/
structure Position where
  line : UInt32
  column : UInt32
deriving DecidableEq

/-- A stretch of a text. -/
structure Location where
  start : Position
  finish : Position
deriving DecidableEq

/-- Block comments are tagged as such; every other comment is a line comment. -/
inductive CommentKind where
  | block
  | line
deriving DecidableEq

/-- A comment, with the offsets and location it may have. -/
structure Comment where
  kind : CommentKind
  text : String
  start : Option UInt64 := none
  finish : Option UInt64 := none
  location : Option Location := none
deriving DecidableEq

/-- What a node keeps of its source record besides its fields. -/
structure Metadata where
  leading : Option (List Comment) := none
  inner : Option (List Comment) := none
  trailing : Option (List Comment) := none
  start : Option UInt64 := none
  finish : Option UInt64 := none
  location : Option Location := none
deriving DecidableEq

/-! ### Reading -/

namespace Metadata

/-- An offset in a text. -/
def readOffset? : Json → Option UInt64
  | .num n => (n.toNat? 64).map UInt64.ofNat
  | _ => none

/-- A line or column number. -/
def readCount? : Json → Option UInt32
  | .num n => (n.toNat? 32).map UInt32.ofNat
  | _ => none

/-- The components of a value with the given keys: looked up in an object, or the
items of an array, of which at least `least` have to be there. -/
def components? (keys : List String) (least : Nat) : Json → Option (List (Option Json))
  | .obj record => some (keys.map (Json.Record.get? record))
  | .arr items =>
    if least ≤ items.length ∧ items.length ≤ keys.length then
      some (items.map some ++ List.replicate (keys.length - items.length) none)
    else none
  | _ => none

/-- A component that has to be there. -/
def required {α : Type} (read : Json → Option α) (component : Option Json) : Option α :=
  component.bind read

/-- A component that may be missing or `null`. -/
def optional {α : Type} (read : Json → Option α) : Option Json → Option (Option α)
  | none | some .null => some none
  | some value => (read value).map some

end Metadata

open Metadata

/-- A position, from its line and column. -/
def Position.ofJson? (value : Json) : Option Position :=
  match components? ["line", "column"] 2 value with
  | some [line, column] => do
    return { line := ← required readCount? line, column := ← required readCount? column }
  | _ => none

/-- A location, from its two ends. -/
def Location.ofJson? (value : Json) : Option Location :=
  match components? ["start", "end"] 2 value with
  | some [start, finish] => do
    return { start := ← required Position.ofJson? start
             finish := ← required Position.ofJson? finish }
  | _ => none

/-- The kind that a comment's tag names. -/
def CommentKind.ofTag (tag : String) : CommentKind := if tag = "CommentBlock" then block else line

/-- A comment, from its tag and text and what else is there. -/
def Comment.ofJson? (value : Json) : Option Comment :=
  match components? ["type", "value", "start", "end", "loc"] 2 value with
  | some [tag, text, start, finish, location] => do
    return { kind := CommentKind.ofTag (← required Json.asString? tag)
             text := ← required Json.asString? text
             start := ← optional readOffset? start
             finish := ← optional readOffset? finish
             location := ← optional Location.ofJson? location }
  | _ => none

namespace Metadata

/-- A list of comments; one malformed comment spoils it. -/
def readComments? : Json → Option (List Comment)
  | .arr items => items.mapM Comment.ofJson?
  | _ => none

/-- One entry of a record, `none` if it is missing or malformed. -/
def entry? {α : Type} (read : Json → Option α) (record : Json.Record) (key : String) : Option α :=
  (record.get? key).bind read

/-- The six entries of a record, each on its own. -/
def entries (record : Json.Record) : Metadata where
  leading := entry? readComments? record "leadingComments"
  inner := entry? readComments? record "innerComments"
  trailing := entry? readComments? record "trailingComments"
  start := entry? readOffset? record "start"
  finish := entry? readOffset? record "end"
  location := entry? Location.ofJson? record "loc"

/-- The metadata of a record, if it has any. -/
def ofRecord? (record : Json.Record) : Option Metadata :=
  let found := entries record
  if found = {} then none else some found

/-! ### Writing -/

/-- A number of 64 bits as a value. -/
def writeOffset (n : UInt64) : Json := .num (.int n.toNat)

/-- A number of 32 bits as a value. -/
def writeCount (n : UInt32) : Json := .num (.int n.toNat)

/-- An entry that is left out when it has no value. -/
def optionalEntry {α : Type} (key : String) (write : α → Json) (value : Option α) : Json.Record :=
  match value with
  | some a => [(key, write a)]
  | none => []

end Metadata

/-- A position as an object. -/
def Position.toJson (p : Position) : Json :=
  .obj [("line", writeCount p.line), ("column", writeCount p.column)]

/-- A location as an object. -/
def Location.toJson (l : Location) : Json :=
  .obj [("start", l.start.toJson), ("end", l.finish.toJson)]

/-- The tag of a kind of comment. -/
def CommentKind.tag : CommentKind → String
  | block => "CommentBlock"
  | line => "CommentLine"

/-- A comment as an object. -/
def Comment.toJson (c : Comment) : Json :=
  .obj ([("type", .str c.kind.tag), ("value", .str c.text)] ++
    optionalEntry "start" writeOffset c.start ++ optionalEntry "end" writeOffset c.finish ++
    optionalEntry "loc" Location.toJson c.location)

/-- Comments as an array. -/
def writeComments (comments : List Comment) : Json := .arr (comments.map Comment.toJson)

/-- The entries present. -/
def Metadata.toRecord (m : Metadata) : Json.Record :=
  optionalEntry "leadingComments" writeComments m.leading ++
  optionalEntry "innerComments" writeComments m.inner ++
  optionalEntry "trailingComments" writeComments m.trailing ++
  optionalEntry "start" writeOffset m.start ++ optionalEntry "end" writeOffset m.finish ++
  optionalEntry "loc" Location.toJson m.location

end TypedTree
