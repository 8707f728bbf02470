/-
Entries under unique keys, in the order in which the keys first came.

Main definitions:

* `Entries.set` — a value put under a key: in the place of the key's present value, or
  at the end;
* `Entries.ofList` — entries put in one after another, so that a repeated key keeps its
  first place and takes its last value.
-/

namespace TypedTree

namespace Entries

variable {α : Type}

/-- The entries with `value` under `key`. -/
def set : List (String × α) → String → α → List (String × α)
  | [], key, value => [(key, value)]
  | (k, v) :: rest, key, value =>
    if k = key then (k, value) :: rest else (k, v) :: set rest key value

/-- The entries with further ones put in one after another. -/
def extend (entries extra : List (String × α)) : List (String × α) :=
  extra.foldl (fun acc entry => set acc entry.1 entry.2) entries

/-- The given entries with repeated keys merged. -/
def ofList (entries : List (String × α)) : List (String × α) := extend [] entries

end Entries

end TypedTree
