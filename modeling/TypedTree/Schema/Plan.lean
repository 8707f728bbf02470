/-
Evaluation plans of computed fields.

The computed fields of a product are evaluated in an order in which every field
follows the computed fields it depends on. Main definition:

* `Product.plan` — that order with the positions of the dependencies, or the reason
  why there is none: a field name given twice, a dependency that is no field, or
  computed fields that depend on each other in a circle.
-/
import TypedTree.Graph.Topological
import TypedTree.Schema.Basic
import TypedTree.Schema.Error

namespace TypedTree

/-- One computed field and its dependencies, by position. -/
structure ComputeStep where
  field : Nat
  dependencies : List Nat
deriving DecidableEq, Repr

namespace Product

/-- The names of the fields. -/
def fieldNames (p : Product) : List String := p.fields.map (·.name)

/-- The first name that was there before. -/
def firstRepeated? (seen : List String) : List String → Option String
  | [] => none
  | name :: rest => if name ∈ seen then some name else firstRepeated? (name :: seen) rest

/-- The positions of the dependencies of a computed field; `none` for another. -/
def resolve (typeName : String) (p : Product) (field : Field) :
    Except SchemaError (Option (List Nat)) :=
  match field.rule? with
  | none => .ok none
  | some rule => do
    let positions ← rule.dependencies.mapM fun dep =>
      match p.fieldNames.findIdx? (· == dep) with
      | some position => .ok position
      | none => .error (.unknownDependency typeName field.name dep)
    return some positions

/-- The dependencies of the field at a position, if it is computed. -/
def dependenciesAt (table : List (Option (List Nat))) (position : Nat) : List Nat :=
  (table[position]?.getD none).getD []

/-- The positions of the computed fields. -/
def computedPositions (table : List (Option (List Nat))) : List Nat :=
  (List.range table.length).filter fun position => (table[position]?.getD none).isSome

/-- The computed fields among the dependencies of the field at a position. -/
def computedDependencies (table : List (Option (List Nat))) (position : Nat) : List Nat :=
  (dependenciesAt table position).filter fun dep => (table[dep]?.getD none).isSome

/-- The computed fields of a product, each behind those it depends on. -/
def plan (typeName : String) (p : Product) : Except SchemaError (List ComputeStep) := do
  if let some field := firstRepeated? [] p.fieldNames then
    throw (.duplicateField typeName field)
  let table ← p.fields.mapM (resolve typeName p)
  match Graph.topological (computedDependencies table) (computedPositions table) with
  | .ok order => return order.map fun position => ⟨position, dependenciesAt table position⟩
  | .error cycle =>
    throw (.dependencyCycle typeName (cycle.map fun position => p.fieldNames[position]?.getD ""))

end Product

end TypedTree
