/-
The number of edits between two words.

Main definition:

* `Text.editDistance` — the fewest insertions, deletions and replacements of single
  characters that turn one word into the other, computed row by row.
-/

namespace TypedTree

namespace Text

/-- The distances of the prefixes of `word` from a text that is one character `c`
longer, from those for the shorter text; `left` is the distance of the prefix before. -/
def nextDistances (c : Char) (left : Nat) : List Char → List Nat → List Nat
  | x :: word, diagonal :: above :: row =>
    let here := min (min (left + 1) (above + 1)) (diagonal + if x = c then 0 else 1)
    left :: nextDistances c here word (above :: row)
  | _, _ => [left]

/-- The fewest edits that turn one word into the other. -/
def editDistance (word text : List Char) : Nat :=
  let start := List.range (word.length + 1)
  let last := text.foldl (fun row c => nextDistances c (row.headD 0 + 1) word row) start
  last.getLast?.getD 0

end Text

end TypedTree
