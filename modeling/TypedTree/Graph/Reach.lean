/-
Reachability by depth-first search.

A graph is given by the list of successors of each vertex. Main definition:

* `Graph.reach` — the vertices reachable from given ones, in the order in which a
  search meets them that turns to the last start and the last successor first.

The bound on the depth of the search is the number of vertices that have
successors: a longer chain of distinct vertices does not exist.
-/

namespace TypedTree

namespace Graph

variable {α : Type} [DecidableEq α]

/-- Adds to the vertices met so far those that are newly met from `v` on. -/
def reachVertex (next : α → List α) : Nat → List α → α → List α
  | 0, met, _ => met
  | depth + 1, met, v =>
    if v ∈ met then met
    else (next v).reverse.foldl (reachVertex next depth) (met ++ [v])

/-- The vertices reachable from the starts, in the order of the search, where at most
`bound` vertices have successors. -/
def reach (next : α → List α) (bound : Nat) (starts : List α) : List α :=
  starts.reverse.foldl (reachVertex next (bound + 1)) []

end Graph

end TypedTree
