/-
Reading grammar tables.

A table is read straight off the form of its text, so that its own complaints and
faults of the text are met in written order. Main definitions:

* `TableError` — a fault of the text, or something that a table cannot hold there;
* `GrammarTable.read` — the table of a text.

Tables, types and fields are objects, or arrays of their parts in a fixed order.
What they do not know is passed over unread. Descriptors are objects; what they do
not know is read, and reported by its keys.
-/
import TypedTree.Grammar.Basic
import TypedTree.Json.Reader
import TypedTree.Text.Quoted

namespace TypedTree

/-- Why a text is not a grammar table. -/
inductive TableError where
  | malformed (error : Json.ReadError)
  | missingField (name : String)
  | duplicateField (name : String)
  | invalidType (found expected : String)
  | invalidLength (length : Nat)

/-- The text of a complaint; a fault of the text has none here. -/
def TableError.message : TableError → String
  | malformed _ => ""
  | missingField name => s!"missing field `{name}`"
  | duplicateField name => s!"duplicate field `{name}`"
  | invalidType found expected => s!"invalid type: {found}, expected {expected}"
  | invalidLength length =>
    s!"invalid length {length}, expected struct RawGrammar with 2 elements"

namespace GrammarTable

open Json (Form Lexeme ReadError)

/-- A result in which faults of the text are faults of the table. -/
def lift {α : Type} : Except ReadError α → Except TableError α
  | .ok a => .ok a
  | .error e => .error (.malformed e)

/-! ### Plain values -/

/-- How a number is named in complaints. -/
def numberFound : Number → String
  | .int value => s!"integer `{value}`"
  | n => "floating point `" ++ n.render ++ "`"

/-- The complaint about a value of the wrong kind. A fault of the value itself comes
first. -/
def unexpected (form : Form) (expected : String) : TableError :=
  match form with
  | .null => .invalidType "null" expected
  | .bool b => .invalidType ("boolean `" ++ (if b then "true" else "false") ++ "`") expected
  | .number lexeme =>
    match lexeme.value with
    | .ok n => .invalidType (numberFound n) expected
    | .error e => .malformed e
  | .string lexeme =>
    match lexeme.value with
    | .ok s => .invalidType ("string " ++ Text.quoted s) expected
    | .error e => .malformed e
  | .array _ _ => .invalidType "sequence" expected
  | .object _ _ => .invalidType "map" expected
  | .broken e => .malformed e

/-- A string. -/
def readString (form : Form) : Except TableError String :=
  match form with
  | .string lexeme => lift lexeme.value
  | form => .error (unexpected form "a string")

/-- A truth value. -/
def readBool (form : Form) : Except TableError Bool :=
  match form with
  | .bool b => .ok b
  | form => .error (unexpected form "a boolean")

/-- Any value, nested at most `depth` deep. -/
def readValue (depth : Nat) (form : Form) : Except TableError Json := lift (form.value depth)

/-- A list of what `read` reads, one level deeper. -/
def readList {α : Type} (read : Nat → Form → Except TableError α) (depth : Nat) (form : Form) :
    Except TableError (List α) :=
  match form, depth with
  | .array _ _, 0 => .error (.malformed .invalid)
  | .array items closed, depth + 1 => do
    let values ← items.mapM (read depth)
    lift closed
    return values
  | form, _ => .error (unexpected form "a sequence")

/-- Entries of what `read` reads, one level deeper; a repeated key keeps its first place
and takes its last value. -/
def readMap {α : Type} (read : Nat → Form → Except TableError α) (depth : Nat) (form : Form) :
    Except TableError (List (String × α)) :=
  match form, depth with
  | .object _ _, 0 => .error (.malformed .invalid)
  | .object entries closed, depth + 1 => do
    let values ← entries.mapM fun (key, value) => do
      let name ← lift key.value
      return (name, ← read depth value)
    lift closed
    return Entries.ofList values
  | form, _ => .error (unexpected form "a map")

/-! ### Structures -/

/-- The parts of a structure from the items of an array, in order. Parts may be
missing at the end, items may not be left over. -/
def readItems {α : Type} (step : α → String → Form → Except TableError α)
    (closed : Except ReadError Unit) : List String → List Form → Nat → α →
    Except TableError (α × Nat)
  | [], [], count, acc => do
    lift closed
    return (acc, count)
  | [], _ :: _, _, _ => .error (.malformed .invalid)
  | _ :: _, [], count, acc => do
    lift closed
    return (acc, count)
  | key :: keys, item :: items, count, acc => do
    let acc ← step acc key item
    readItems step closed keys items (count + 1) acc

/-- The parts of a structure from the entries of an object, each at most once. Other
entries are passed over. -/
def readEntries {α : Type} (keys : List String) (step : α → String → Form → Except TableError α) :
    List (Lexeme String × Form) → List String → α → Except TableError (α × List String)
  | [], seen, acc => .ok (acc, seen)
  | (key, value) :: rest, seen, acc => do
    let name ← lift key.value
    if name ∈ keys then
      if name ∈ seen then throw (.duplicateField name)
      let acc ← step acc name value
      readEntries keys step rest (name :: seen) acc
    else
      lift value.pass
      readEntries keys step rest seen acc

/-- A structure with the given parts, of which the first `least` may not be missing,
one level deeper. -/
def readStruct {α : Type} (expected : String) (keys : List String) (least : Nat) (start : α)
    (step : Nat → α → String → Form → Except TableError α) (depth : Nat) (form : Form) :
    Except TableError α :=
  match form, depth with
  | .array _ _, 0 | .object _ _, 0 => .error (.malformed .invalid)
  | .array items closed, depth + 1 => do
    let (acc, count) ← readItems (step depth) closed keys items 0 start
    if count < least then throw (.invalidLength count)
    return acc
  | .object entries closed, depth + 1 => do
    let (acc, seen) ← readEntries keys (step depth) entries [] start
    lift closed
    match (keys.take least).find? (· ∉ seen) with
    | some name => throw (.missingField name)
    | none => return acc
  | form, _ => .error (unexpected form expected)

/-! ### Descriptors -/

/-- What a descriptor says under the keys it knows, and the keys it does not know. -/
structure Parts where
  kind : Option String := none
  nodeTypes : Option (List String) := none
  nodeOrValueTypes : Option (List String) := none
  oneOf : Option (List Json) := none
  chain : Option (List Descriptor) := none
  each : Option Descriptor := none
  shapeOf : Option Json := none
  others : List String := []

/-- The descriptor that the parts make up. A chain counts before all else, an `each`
after all else. -/
def Parts.descriptor (p : Parts) : Descriptor :=
  match p.chain, p.kind, p.nodeTypes, p.nodeOrValueTypes, p.oneOf, p.shapeOf, p.each with
  | some links, _, _, _, _, _, _ => .chain links
  | none, some name, _, _, _, _, _ => .kind name
  | none, none, some names, _, _, _, _ => .nodeTypes names
  | none, none, none, some names, _, _, _ => .nodeOrValueTypes names
  | none, none, none, none, some values, _, _ => .oneOf values
  | none, none, none, none, none, some form, _ => .shapeOf form
  | none, none, none, none, none, none, some item => .each item
  | none, none, none, none, none, none, none =>
    if p.others.isEmpty then .empty else .unrecognized p.others

/-- The keys that a descriptor knows. -/
def descriptorKeys : List String :=
  ["type", "oneOfNodeTypes", "oneOfNodeOrValueTypes", "oneOf", "chainOf", "each", "shapeOf"]

/-- A value that is absent if it is `null`. -/
def readOptional {α : Type} (read : Form → Except TableError α) :
    Form → Except TableError (Option α)
  | .null => .ok none
  | form => some <$> read form

/-- The parts with a plain part more. -/
def Parts.readPlain (p : Parts) (depth : Nat) (key : String) (form : Form) :
    Except TableError Parts :=
  match key with
  | "type" => return { p with kind := ← readOptional readString form }
  | "oneOfNodeTypes" =>
    return { p with nodeTypes := ← readOptional (readList (fun _ => readString) depth) form }
  | "oneOfNodeOrValueTypes" =>
    return { p with nodeOrValueTypes := ← readOptional (readList (fun _ => readString) depth) form }
  | "oneOf" => return { p with oneOf := ← readOptional (readList readValue depth) form }
  | "shapeOf" => return { p with shapeOf := ← readOptional (readValue depth) form }
  | key => do
    let _ ← readValue depth form
    return { p with others := if key ∈ p.others then p.others else p.others ++ [key] }

mutual

/-- A descriptor. -/
def readDescriptor (depth : Nat) : Form → Except TableError Descriptor
  | .object entries closed =>
    match depth with
    | 0 => .error (.malformed .invalid)
    | depth + 1 => do
      let parts ← readParts depth entries [] {}
      lift closed
      return parts.descriptor
  | form => .error (unexpected form "struct RawDescriptor")

/-- The parts of a descriptor, each known one at most once. -/
def readParts (depth : Nat) : List (Lexeme String × Form) → List String → Parts →
    Except TableError Parts
  | [], _, parts => .ok parts
  | (key, value) :: rest, seen, parts => do
    let name ← lift key.value
    if name ∈ descriptorKeys ∧ name ∈ seen then throw (.duplicateField name)
    let parts ←
      if name = "chainOf" then
        match value with
        | .null => pure { parts with chain := none }
        | .array items closed =>
          match depth with
          | 0 => throw (.malformed .invalid)
          | depth + 1 => do
            let links ← readDescriptors depth items
            lift closed
            pure { parts with chain := some links }
        | form => throw (unexpected form "a sequence")
      else if name = "each" then
        match value with
        | .null => pure { parts with each := none }
        | form => do pure { parts with each := some (← readDescriptor depth form) }
      else parts.readPlain depth name value
    readParts depth rest (name :: seen) parts

/-- Descriptors, one after another. -/
def readDescriptors (depth : Nat) : List Form → Except TableError (List Descriptor)
  | [] => .ok []
  | item :: rest => do
    let d ← readDescriptor depth item
    let ds ← readDescriptors depth rest
    return d :: ds

end

/-! ### Tables -/

/-- A field, named by the key it stands under. -/
def readField (depth : Nat) (form : Form) : Except TableError GrammarField :=
  readStruct "struct RawField" ["validate", "optional", "default"] 0 { name := "" }
    (fun depth field key form =>
      match key with
      | "validate" => return { field with descriptor := ← readOptional (readDescriptor depth) form }
      | "optional" => return { field with optional := ← readBool form }
      | _ => return { field with default := ← readOptional (readValue depth) form })
    depth form

/-- A node type. -/
def readType (depth : Nat) (form : Form) : Except TableError TableType :=
  readStruct "struct RawType" ["aliases", "fields"] 0 {}
    (fun depth type key form =>
      match key with
      | "aliases" => return { type with aliases := ← readList (fun _ => readString) depth form }
      | _ => do
        let fields ← readMap readField depth form
        return { type with fields := fields.map fun (name, field) => { field with name } })
    depth form

/-- A table. -/
def readTable (depth : Nat) (form : Form) : Except TableError GrammarTable :=
  readStruct "struct RawGrammar" ["name", "types"] 2 { name := "", types := [] }
    (fun depth table key form =>
      match key with
      | "name" => return { table with name := ← readString form }
      | _ => return { table with types := ← readMap readType depth form })
    depth form

/-- The table of a text. -/
def read (text : String) : Except TableError GrammarTable := do
  let (form, rest) := Form.parse text
  let table ← readTable Json.nestingLimit form
  lift rest
  return table

end GrammarTable

/-- The grammar of a text that holds its table. -/
def Grammar.read (text : String) : Except TableError Grammar :=
  Grammar.ofTable <$> GrammarTable.read text

end TypedTree
