/-
Reading JSON values.

Main definitions:

* `Json.Form.value` — the value of a form, nested at most as deep as allowed;
* `Json.Form.pass` — whether a form can be passed over unread, at any depth;
* `Json.read` — the value of a text with at most `Json.nestingLimit` arrays and
  objects inside one another;
* `Json.readDeep` — the same without that bound.
-/
import TypedTree.Entries
import TypedTree.Json.Form

namespace TypedTree

namespace Json

namespace Form

mutual

/-- The value of a form with at most `depth` containers inside one another. The
first fault in written order is reported. -/
def value (depth : Nat) : Form → Except ReadError Json
  | null => .ok .null
  | bool b => .ok (.bool b)
  | number lexeme => lexeme.value.map .num
  | string lexeme => lexeme.value.map .str
  | array items closed =>
    match depth with
    | 0 => .error .invalid
    | depth + 1 => do
      let values ← itemValues depth items
      closed
      return .arr values
  | object entries closed =>
    match depth with
    | 0 => .error .invalid
    | depth + 1 => do
      let values ← entryValues depth entries
      closed
      return .obj (Entries.ofList values)
  | broken e => .error e

/-- The values of items, one after another. -/
def itemValues (depth : Nat) : List Form → Except ReadError (List Json)
  | [] => .ok []
  | item :: rest => do
    let v ← value depth item
    let vs ← itemValues depth rest
    return v :: vs

/-- The keys and values of entries, one after another. -/
def entryValues (depth : Nat) : List (Lexeme String × Form) →
    Except ReadError (List (String × Json))
  | [] => .ok []
  | (key, item) :: rest => do
    let k ← key.value
    let v ← value depth item
    let vs ← entryValues depth rest
    return (k, v) :: vs

end

mutual

/-- Passes over a form unread. -/
def pass : Form → Except ReadError Unit
  | null | bool _ => .ok ()
  | number lexeme => lexeme.extent
  | string lexeme => lexeme.extent
  | array items closed => do
    passItems items
    closed
  | object entries closed => do
    passEntries entries
    closed
  | broken e => .error e

/-- Passes over items, one after another. -/
def passItems : List Form → Except ReadError Unit
  | [] => .ok ()
  | item :: rest => do
    pass item
    passItems rest

/-- Passes over entries, one after another. -/
def passEntries : List (Lexeme String × Form) → Except ReadError Unit
  | [] => .ok ()
  | (key, item) :: rest => do
    key.extent
    pass item
    passEntries rest

end

end Form

/-- The value of a text with at most `depth` containers inside one another. -/
def readWithin (depth : Nat) (text : String) : Except ReadError Json := do
  let (form, rest) := Form.parse text
  let value ← form.value depth
  rest
  return value

/-- How many arrays and objects a text may hold inside one another. -/
def nestingLimit : Nat := 127

/-- The value of a text. -/
def read (text : String) : Except ReadError Json := readWithin nestingLimit text

/-- The value of a text nested to any depth. -/
def readDeep (text : String) : Except ReadError Json := readWithin text.length text

end Json

end TypedTree
