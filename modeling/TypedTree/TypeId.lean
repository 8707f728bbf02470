/-
Handles of types.

A type is known by its position in the order of declaration, so a handle stays valid
while bodies are attached and replaced.
-/

namespace TypedTree

/-- The position of a type in the order of declaration. -/
structure TypeId where
  index : Nat
deriving DecidableEq, Repr

/-- The text that names a handle which no type answers to. -/
def TypeId.render (id : TypeId) : String := "TypeId(" ++ toString id.index ++ ")"

end TypedTree
