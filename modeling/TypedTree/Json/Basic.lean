/-
JSON values.

An object is a list of entries in written order. Main definitions:

* `Json.Record.get?` — the value under a key;
* `Json.same` — equality that ignores the order of an object's keys;
* `Json.tag?` — the text under `type`, by which tagged records are told apart.
-/
import TypedTree.Json.Number

namespace TypedTree

/-- A JSON value. -/
inductive Json where
  | null
  | bool (value : Bool)
  | num (value : Number)
  | str (value : String)
  | arr (items : List Json)
  | obj (entries : List (String × Json))
deriving Repr, Inhabited

namespace Json

/-- The entries of an object, in written order. -/
abbrev Record := List (String × Json)

namespace Record

/-- The value under a key. -/
def get? (record : Record) (key : String) : Option Json := record.lookup key

/-- The text under `type`. -/
def tag? (record : Record) : Option String :=
  match record.get? "type" with
  | some (.str tag) => some tag
  | _ => none

end Record

/-- The text under `type` of a tagged record; `none` for anything else. -/
def tag? : Json → Option String
  | obj entries => Record.tag? entries
  | _ => none

/-- The text of a string. -/
def asString? : Json → Option String
  | str s => some s
  | _ => none

/-- Whether this is the value `null`. -/
def isNull : Json → Bool
  | null => true
  | _ => false

mutual

/-- Equality of values, whatever the order of keys in objects. -/
def same : Json → Json → Bool
  | null, null => true
  | bool a, bool b => a == b
  | num a, num b => a.same b
  | str a, str b => a == b
  | arr as, arr bs => sameItems as bs
  | obj as, obj bs => as.length == bs.length && sameEntries as bs
  | _, _ => false

/-- Equality of lists, item by item. -/
def sameItems : List Json → List Json → Bool
  | [], [] => true
  | a :: as, b :: bs => same a b && sameItems as bs
  | _, _ => false

/-- Whether every entry has an equal one under its key among the others. -/
def sameEntries : List (String × Json) → List (String × Json) → Bool
  | [], _ => true
  | (key, a) :: as, bs =>
    (match bs.lookup key with
      | some b => same a b
      | none => false) && sameEntries as bs

end

end Json

end TypedTree
