/-
The text of JSON values, compact and indented.

Both printers extend a text on its right. Strings escape the quote, the backslash
and the control characters below U+0020, and nothing else. Main definitions:

* `Json.compact` — no space anywhere;
* `Json.pretty` — two more spaces for every nesting, empty arrays and objects on
  one line.
-/
import TypedTree.Json.Basic

namespace TypedTree

namespace Json

/-- The escape of one character inside a quoted string. -/
def escapeChar (c : Char) : String :=
  if c = '"' then "\\\""
  else if c = '\\' then "\\\\"
  else if c = '\x08' then "\\b"
  else if c = '\x0c' then "\\f"
  else if c = '\n' then "\\n"
  else if c = '\r' then "\\r"
  else if c = '\t' then "\\t"
  else if c.toNat < 0x20 then
    "\\u00" ++ String.ofList [Nat.digitChar (c.toNat / 16), Nat.digitChar (c.toNat % 16)]
  else c.toString

/-- A string in quotes. -/
def quote (s : String) : String :=
  s.toList.foldl (fun acc c => acc ++ escapeChar c) "\"" ++ "\""

mutual

/-- Appends the compact text of a value. -/
def writeCompact (out : String) : Json → String
  | null => out ++ "null"
  | bool b => out ++ if b then "true" else "false"
  | num n => out ++ n.render
  | str s => out ++ quote s
  | arr items => writeItems (out ++ "[") "" items ++ "]"
  | obj entries => writeEntries (out ++ "\x7b") "" entries ++ "\x7d"

/-- Appends items, each after a separator. -/
def writeItems (out separator : String) : List Json → String
  | [] => out
  | item :: rest => writeItems (writeCompact (out ++ separator) item) "," rest

/-- Appends entries, each after a separator. -/
def writeEntries (out separator : String) : List (String × Json) → String
  | [] => out
  | (key, value) :: rest =>
    writeEntries (writeCompact (out ++ separator ++ quote key ++ ":") value) "," rest

end

/-- The text of a value without any space. -/
def compact (value : Json) : String := writeCompact "" value

/-- A line break and the indentation of a nesting depth. -/
def newline (depth : Nat) : String := "\n" ++ String.ofList (List.replicate (2 * depth) ' ')

mutual

/-- Appends the indented text of a value that starts at nesting `depth`. -/
def writePretty (out : String) (depth : Nat) : Json → String
  | null => out ++ "null"
  | bool b => out ++ if b then "true" else "false"
  | num n => out ++ n.render
  | str s => out ++ quote s
  | arr [] => out ++ "[]"
  | arr (item :: rest) =>
    writePrettyItems (writePretty (out ++ "[" ++ newline (depth + 1)) (depth + 1) item)
      (depth + 1) rest ++ newline depth ++ "]"
  | obj [] => out ++ "\x7b\x7d"
  | obj ((key, value) :: rest) =>
    writePrettyEntries
      (writePretty (out ++ "\x7b" ++ newline (depth + 1) ++ quote key ++ ": ") (depth + 1) value)
      (depth + 1) rest ++ newline depth ++ "\x7d"

/-- Appends the further items of an array, each on a line of its own. -/
def writePrettyItems (out : String) (depth : Nat) : List Json → String
  | [] => out
  | item :: rest =>
    writePrettyItems (writePretty (out ++ "," ++ newline depth) depth item) depth rest

/-- Appends the further entries of an object, each on a line of its own. -/
def writePrettyEntries (out : String) (depth : Nat) : List (String × Json) → String
  | [] => out
  | (key, value) :: rest =>
    writePrettyEntries
      (writePretty (out ++ "," ++ newline depth ++ quote key ++ ": ") depth value) depth rest

end

/-- The text of a value on indented lines. -/
def pretty (value : Json) : String := writePretty "" 0 value

end Json

end TypedTree
