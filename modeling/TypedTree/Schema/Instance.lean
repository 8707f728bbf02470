/-
Membership of translated values in types.

Main statements:

* `Registry.isInstance` — whether a value belongs to a type; a node belongs to the
  product whose handle it carries;
* `Registry.isInstance_eq` — the same by cases on the shape of the type.

The recursion goes down into lists, and otherwise along steps at the same value,
which the registry promises to end.
-/
import TypedTree.Schema.Registry

namespace TypedTree

namespace Registry

/-- Whether a value belongs to a type. -/
def isInstance (reg : Registry) (id : TypeId) (value : Value) : Bool :=
  match _h : reg.shape id with
  | .primitive kind => kind.holds value
  | .array item =>
    match value with
    | .list items => items.attach.all fun ⟨v, _⟩ => reg.isInstance item v
    | _ => false
  | .nullable inner => value.isNull || reg.isInstance inner value
  | .nameSet => value.asNames?.isSome
  | .product _ => (value.asNode?.map (·.id)) == some id
  | .union alternatives => alternatives.attach.any fun ⟨alt, _⟩ => reg.isInstance alt value
  | .inspect i => i.arms.attach.any fun ⟨arm, _⟩ => reg.isInstance arm.target value
termination_by (sizeOf value, reg.rank id)
decreasing_by
  · apply Prod.Lex.left
    have := List.sizeOf_lt_of_mem ‹_ ∈ items›
    simp only [Value.list.sizeOf_spec]
    omega
  · apply Prod.Lex.right
    exact reg.samePath_rank_lt (by simp [_h, Shape.samePath])
  · apply Prod.Lex.right
    exact reg.samePath_rank_lt (by simpa [_h, Shape.samePath] using ‹_›)
  · apply Prod.Lex.right
    exact reg.samePath_rank_lt (by
      simp only [_h, Shape.samePath]
      exact List.mem_map_of_mem ‹_›)

/-- Membership by cases on the shape of the type. -/
theorem isInstance_eq (reg : Registry) (id : TypeId) (value : Value) :
    reg.isInstance id value =
      match reg.shape id with
      | .primitive kind => kind.holds value
      | .array item =>
        match value with
        | .list items => items.all fun v => reg.isInstance item v
        | _ => false
      | .nullable inner => value.isNull || reg.isInstance inner value
      | .nameSet => value.asNames?.isSome
      | .product _ => (value.asNode?.map (·.id)) == some id
      | .union alternatives => alternatives.any fun alt => reg.isInstance alt value
      | .inspect i => i.arms.any fun arm => reg.isInstance arm.target value := by
  rw [isInstance]
  split <;> simp_all

end Registry

end TypedTree
