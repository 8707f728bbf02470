/-
Strings in quotes for messages.

Main definition:

* `Text.quoted` — the string between quotes, with quotes, backslashes and all that is
  not shown as it is written as escapes.
-/
import TypedTree.Text.Unprintable

namespace TypedTree

namespace Text

/-- The form of one character between quotes. -/
def quotedChar (c : Char) : String :=
  if c = '"' then "\\\""
  else if c = '\\' then "\\\\"
  else if c = '\n' then "\\n"
  else if c = '\r' then "\\r"
  else if c = '\t' then "\\t"
  else if c.toNat = 0 then "\\0"
  else if isUnprintable c then
    "\\u\x7b" ++ String.ofList (Nat.toDigits 16 c.toNat) ++ "\x7d"
  else c.toString

/-- A string between quotes. -/
def quoted (s : String) : String := "\"" ++ String.join (s.toList.map quotedChar) ++ "\""

end Text

end TypedTree
