/-
The builtin grammars and the names they go by.

Main definitions:

* `Grammar.builtin?` — the grammar of a name, whatever the case of its letters;
* `Grammar.suggestion?` — the grammar that a mistyped name was probably meant for.
-/
import TypedTree.Grammar.Estree
import TypedTree.Text.EditDistance

namespace TypedTree

namespace Grammar

/-- A grammar with the names it goes by. -/
structure Builtin where
  grammar : Grammar
  names : List String

/-- All builtin grammars. -/
def builtins : List Builtin := [⟨estree, ["estree", "babel", "javascript", "js"]⟩]

/-- Every name of a builtin grammar, with the grammar. -/
def builtinNames : List (String × Grammar) :=
  builtins.flatMap fun b => b.names.map fun name => (name, b.grammar)

/-- The builtin grammar of a name. -/
def builtin? (name : String) : Option Grammar :=
  builtinNames.lookup (String.ofList (name.toList.map Char.toLower))

/-- The small form of a character. Besides the letters of ASCII only the two capitals
are told apart whose small form has a letter of ASCII in it: to the names above, all
other characters are equally far. -/
def lower (c : Char) : List Char :=
  if c = '\u212a' then ['k'] else if c = '\u0130' then ['i', '\u0307'] else [c.toLower]

/-- The number of edits that a name forgives: a third of its length, but at least
one. -/
def tolerance (name : String) : Nat := max (name.utf8ByteSize / 3) 1

/-- The first of the closest candidates. -/
def closest? (candidates : List (Nat × Grammar)) : Option (Nat × Grammar) :=
  candidates.foldl (fun best candidate =>
    match best with
    | none => some candidate
    | some b => if candidate.1 < b.1 then some candidate else some b) none

/-- The builtin grammar whose name is closest to what was typed, if close enough. -/
def suggestion? (typed : String) : Option Grammar :=
  let typed := typed.toList.flatMap lower
  let candidates := builtinNames.filterMap fun (name, grammar) =>
    let distance := Text.editDistance name.toList typed
    if distance ≤ tolerance name then some (distance, grammar) else none
  (closest? candidates).map (·.2)

end Grammar

end TypedTree
