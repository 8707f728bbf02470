/-
Scopes of translated programs.

Which names a pattern binds and which names are free in a node is said here by looking down
from the node, without the sets that the node carries. Main definitions:

* `Node.BindingPath` — the patterns that a pattern leads to along binding fields;
* `Node.Binds` — the name of an identifier pattern at the end of such a path;
* `Node.Captures` — the names that a function takes for itself and all below it;
* `Node.Free` — an occurrence of a name below a node, with no function in between that
  captures it.

Design notes: an occurrence on the left of an assignment counts from the assignment on, so
a node sees it if the assignment is in its own subtree.
-/
import TypedTree.Proofs.Attribute
import TypedTree.Proofs.Translation.Leaves

namespace TypedTree

namespace Node

variable {n m o : Node} {x : String}

/-! ### Children -/

/-- A node stands in a field of another one, itself or in a list. -/
def Child (n : Node) (field : String) (m : Node) : Prop :=
  ∃ v, n.get? field = some v ∧ v.Holds m

theorem Child.occursIn {field : String} (h : n.Child field m) (ho : o.OccursIn m.toValue) :
    o.OccursIn n.toValue := by
  obtain ⟨v, hv, hm⟩ := h
  exact .field (mem_of_lookup_eq_some hv) (.of_holds hm ho)

theorem sizeOf_le_of_holds {v : Value} (h : v.Holds m) : sizeOf m.toValue ≤ sizeOf v := by
  induction h with
  | here => exact Nat.le_refl _
  | item mem _ ih =>
    have hlt := List.sizeOf_lt_of_mem mem
    rw [Value.list.sizeOf_spec]
    omega

theorem Child.sizeOf_lt {field : String} (h : n.Child field m) :
    sizeOf m.toValue < sizeOf n.toValue := by
  obtain ⟨v, hv, hm⟩ := h
  have hle := sizeOf_le_of_holds hm
  have hlt := List.sizeOf_lt_of_mem (mem_of_lookup_eq_some hv)
  rw [Prod.mk.sizeOf_spec] at hlt
  rw [Node.toValue.eq_1 n, Value.node.sizeOf_spec]
  omega

/-- What holds of a node as soon as it holds of all its children, holds of every node. -/
theorem child_induction {motive : Node → Prop}
    (step : ∀ n, (∀ field m, n.Child field m → motive m) → motive n) (n : Node) : motive n := by
  induction hsize : sizeOf n.toValue using Nat.strongRecOn generalizing n with
  | _ size ih =>
    refine step n fun field m hm => ih _ ?_ m rfl
    rw [← hsize]
    exact hm.sizeOf_lt

/-! ### Bound names -/

/-- The fields along which patterns bind names, by the type of the pattern. -/
def bindingEdges : List (String × List String) :=
  [("ObjectPattern", ["properties", "restProperty"]), ("ObjectPropertyPattern", ["value"]),
    ("ComputedObjectPropertyPattern", ["value"]), ("ArrayPattern", ["elements", "restElement"]),
    ("AssignmentPattern", ["left"]), ("RestElement", ["argument"])]

/-- The fields of a type of nodes along which names are bound. -/
def bindingFields (typeName : String) : List String := (bindingEdges.lookup typeName).getD []

/-- The patterns that a pattern leads to along binding fields. -/
inductive BindingPath : Node → Node → Prop
  | refl (n : Node) : BindingPath n n
  | edge {n m o : Node} {field : String} (mem : field ∈ bindingFields n.typeName)
      (child : n.Child field m) (rest : BindingPath m o) : BindingPath n o

/-- A node has the text for its name. -/
def IsNamed (n : Node) (x : String) : Prop := n.get? "name" = some (.string x)

/-- A pattern binds the names of the identifier patterns that it leads to. -/
def Binds (n : Node) (x : String) : Prop :=
  ∃ o, n.BindingPath o ∧ o.typeName = "IdentifierPattern" ∧ o.IsNamed x

theorem binds_iff : n.Binds x ↔ n.typeName = "IdentifierPattern" ∧ n.IsNamed x ∨
    ∃ field ∈ bindingFields n.typeName, ∃ m, n.Child field m ∧ m.Binds x := by
  constructor
  · rintro ⟨o, hpath, ho⟩
    cases hpath with
    | refl => exact .inl ho
    | edge mem child rest => exact .inr ⟨_, mem, _, child, o, rest, ho⟩
  · rintro (hn | ⟨field, mem, m, child, o, rest, ho⟩)
    · exact ⟨n, .refl n, hn⟩
    · exact ⟨o, .edge mem child rest, ho⟩

theorem binds_iff_of_identifier (h : n.typeName = "IdentifierPattern") :
    n.Binds x ↔ n.IsNamed x := by
  have hfields : bindingFields n.typeName = [] := by
    rw [h]
    decide
  rw [binds_iff, hfields]
  simp [h]

/-! ### Free names -/

/-- A reference to a name, or an assignment to it. -/
def Mentions (n : Node) (x : String) : Prop :=
  n.typeName = "IdentifierExpression" ∧ n.IsNamed x ∨
    n.typeName = "AssignmentExpression" ∧ ∃ m, n.Child "left" m ∧ m.Binds x

/-- A function captures the names that its parameters bind, and unless it is an arrow also
its own name and `arguments`. -/
def Captures (n : Node) (x : String) : Prop :=
  (n.typeName = "ArrowFunctionExpression" ∨ n.typeName = "FunctionExpression") ∧
      (∃ field ∈ ["parameters", "restParameter"], ∃ m, n.Child field m ∧ m.Binds x) ∨
    n.typeName = "FunctionExpression" ∧
      ((∃ m, n.Child "id" m ∧ m.IsNamed x) ∨ x = "arguments")

/-- A node is the other one or below it, and none from the one to the other captures the
name. -/
inductive Uncaptured (x : String) : Node → Node → Prop
  | here {n : Node} (not : ¬ n.Captures x) : Uncaptured x n n
  | child {n m o : Node} {field : String} (not : ¬ n.Captures x) (child : n.Child field m)
      (rest : Uncaptured x m o) : Uncaptured x n o

/-- A name is free in a node if it is mentioned there and nothing in between captures
it. -/
def Free (n : Node) (x : String) : Prop := ∃ o, Uncaptured x n o ∧ o.Mentions x

theorem free_iff : n.Free x ↔
    ¬ n.Captures x ∧ (n.Mentions x ∨ ∃ field m, n.Child field m ∧ m.Free x) := by
  constructor
  · rintro ⟨o, hpath, ho⟩
    cases hpath with
    | here not => exact ⟨not, .inl ho⟩
    | child not child rest => exact ⟨not, .inr ⟨_, _, child, o, rest, ho⟩⟩
  · rintro ⟨not, hn | ⟨field, m, child, o, rest, ho⟩⟩
    · exact ⟨n, .here not, hn⟩
    · exact ⟨o, .child not child rest, ho⟩

end Node

end TypedTree
