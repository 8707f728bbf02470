/-
Frozen schemas.

A registry is what a builder becomes once it is found sound. Main statements:

* `Registry` — the definitions of all types, with the promise that no type leads to
  itself while the source value stays the same;
* `Builder.freeze` — the checks, in a fixed order, and the registry;
* `Registry.samePath_rank_lt` — the promise in the form that recursion uses: a rank
  that falls along such steps.

Products come with the plan of their computed fields and with the names of the
fields below which nodes can be found.
-/
import TypedTree.Graph.Reach
import TypedTree.Schema.Builder
import TypedTree.Schema.CycleSearch
import TypedTree.Schema.Plan

namespace TypedTree

/-- The body behind a handle; a handle that no type answers to has the union without
alternatives. -/
def shapeAt (shapes : List Shape) (id : TypeId) : Shape := shapes[id.index]?.getD (.union [])

/-- The types that a type hands the same source value to. -/
def samePathAt (shapes : List Shape) (id : TypeId) : List TypeId := (shapeAt shapes id).samePath

/-- A frozen type. -/
structure TypeDef where
  name : String
  shape : Shape
  structural : Bool
  /-- How the computed fields of a product are evaluated. -/
  plan : List ComputeStep
  /-- The fields of a product below which nodes can be found. -/
  traversable : List String

/-- A frozen schema. -/
structure Registry where
  defs : Array TypeDef
  /-- The handles of the names. -/
  table : List (String × TypeId)
  /-- No type leads to itself while the source value stays the same. -/
  acyclic : ∃ rank : TypeId → Nat, ∀ id, ∀ next ∈ samePathAt (defs.toList.map (·.shape)) id,
    rank next < rank id

namespace Registry

/-! ### Look-up -/

/-- The number of types. -/
def size (reg : Registry) : Nat := reg.defs.size

/-- Whether a handle was given out for this schema. -/
def contains (reg : Registry) (id : TypeId) : Bool := id.index < reg.size

/-- The definition behind a handle. -/
def def? (reg : Registry) (id : TypeId) : Option TypeDef := reg.defs[id.index]?

/-- The name of a type. -/
def name (reg : Registry) (id : TypeId) : String := ((reg.def? id).map (·.name)).getD ""

/-- The body of a type. -/
def shape (reg : Registry) (id : TypeId) : Shape :=
  ((reg.def? id).map (·.shape)).getD (.union [])

/-- The plan of a product's computed fields. -/
def plan (reg : Registry) (id : TypeId) : List ComputeStep :=
  ((reg.def? id).map (·.plan)).getD []

/-- The fields of a product below which nodes can be found, in the order of fields.
Computed fields and attached comments never count. -/
def traversable (reg : Registry) (id : TypeId) : List String :=
  ((reg.def? id).map (·.traversable)).getD []

/-- The type of a name. -/
def find? (reg : Registry) (name : String) : Option TypeId := reg.table.lookup name

/-- All handles, in the order of declaration. -/
def ids (reg : Registry) : List TypeId := (List.range reg.size).map TypeId.mk

theorem shapeAt_defs (reg : Registry) (id : TypeId) :
    shapeAt (reg.defs.toList.map (·.shape)) id = reg.shape id := by
  simp [shapeAt, shape, def?]

/-- A rank of types that falls from a type to those it hands the same source value
to. -/
noncomputable def rank (reg : Registry) : TypeId → Nat := reg.acyclic.choose

theorem samePath_rank_lt (reg : Registry) {id next : TypeId}
    (h : next ∈ (reg.shape id).samePath) : reg.rank next < reg.rank id := by
  refine reg.acyclic.choose_spec id next ?_
  rwa [samePathAt, shapeAt_defs]

end Registry

/-! ### Checks -/

/-- A declared type with its body. -/
structure Defined where
  name : String
  shape : Shape
  structural : Bool

/-- The declaration with its body, which it has to have. -/
def Declaration.defined (d : Declaration) : Except SchemaError Defined :=
  match d.body with
  | some shape => .ok ⟨d.name, shape, d.structural⟩
  | none => .error (.undefined d.name)

/-- The plan of a product; every other shape has none. A union needs an alternative
and an inspect shape an arm. -/
def Defined.plan (d : Defined) : Except SchemaError (List ComputeStep) :=
  match d.shape with
  | .product p => p.plan d.name
  | .union [] => .error (.emptyUnion d.name)
  | .inspect i => if i.arms.isEmpty then .error (.emptyUnion d.name) else .ok []
  | _ => .ok []

/-- The name of the type behind a handle. -/
def nameAt (types : List Defined) (id : TypeId) : String :=
  (types[id.index]?.map (·.name)).getD ""

/-- The handles of so many types. -/
def handles (count : Nat) : List TypeId := (List.range count).map TypeId.mk

/-- The types in an order in which each follows those it hands the same source value
to, or a type that leads to itself that way. -/
def samePathOrder (types : List Defined) : Except SchemaError (List TypeId) :=
  match CycleSearch.search (samePathAt (types.map (·.shape))) types.length with
  | .ok s => .ok s.order
  | .error id => .error (.unionCycle (nameAt types id))

/-- The alternatives of a union. -/
def Shape.alternatives : Shape → List TypeId
  | union alternatives => alternatives
  | _ => []

/-- The first product that an inspect shape can build through unions and that does
not read the inspected key. -/
def Inspect.unread? (shapes : List Shape) (i : Inspect) : Option TypeId :=
  (Graph.reach (fun id => (shapeAt shapes id).alternatives) shapes.length
      (i.arms.map (·.target))).find? fun id =>
    match shapeAt shapes id with
    | .product p => !p.fields.any (·.readsKey i.field)
    | _ => false

/-- Every product that an inspect shape can build has to read the inspected key. -/
def checkInspects (types : List Defined) : Except SchemaError Unit :=
  types.forM fun d =>
    match d.shape with
    | .inspect i =>
      match i.unread? (types.map (·.shape)) with
      | some target => .error (.inspectField d.name i.field (nameAt types target))
      | none => .ok ()
    | _ => .ok ()

/-- The types whose values a value of this shape may hold outside of any node. -/
def Shape.contents : Shape → List TypeId
  | array item => [item]
  | nullable inner => [inner]
  | union alternatives => alternatives
  | inspect i => i.arms.map (·.target)
  | primitive _ | nameSet | product _ => []

/-- Whether a value of the type can hold a node. -/
def canHoldNode (shapes : List Shape) (id : TypeId) : Bool :=
  (Graph.reach (fun id => (shapeAt shapes id).contents) shapes.length [id]).any fun id =>
    (shapeAt shapes id).asProduct?.isSome

/-- The fields of a product below which nodes can be found. -/
def Shape.traversable (shapes : List Shape) (shape : Shape) : List String :=
  match shape with
  | .product p =>
    (p.fields.filter fun field =>
      !field.isComputed && !"Comments".toList.isSuffixOf field.name.toList &&
        canHoldNode shapes field.type).map (·.name)
  | _ => []

/-! ### Freezing -/

/-- The frozen form of a type. -/
def Defined.freeze (shapes : List Shape) (d : Defined) (plan : List ComputeStep) : TypeDef where
  name := d.name
  shape := d.shape
  structural := d.structural
  plan := plan
  traversable := d.shape.traversable shapes

/-- The frozen forms of types with their plans. -/
def freezeAll (types : List Defined) (plans : List (List ComputeStep)) : List TypeDef :=
  types.mapIdx fun i d => d.freeze (types.map (·.shape)) (plans[i]?.getD [])

theorem map_shape_freezeAll (types : List Defined) (plans : List (List ComputeStep)) :
    (freezeAll types plans).map (·.shape) = types.map (·.shape) := by
  refine List.ext_getElem? fun i => ?_
  simp only [freezeAll, List.getElem?_map, List.getElem?_mapIdx, Option.map_map]
  cases types[i]? <;> rfl

/-- The types of the list that a type hands the same source value to. -/
def samePathInside (types : List Defined) : TypeId → List TypeId :=
  CycleSearch.inside (samePathAt (types.map (·.shape))) types.length

theorem mem_samePathInside_iff {types : List Defined} {id next : TypeId} :
    next ∈ samePathInside types id ↔
      next ∈ samePathAt (types.map (·.shape)) id ∧ next.index < types.length := by
  rw [samePathInside, CycleSearch.inside, List.mem_filter, decide_eq_true_eq]

/-- Only types of the list hand their value on. -/
theorem index_lt_of_mem_samePathAt {types : List Defined} {id next : TypeId}
    (h : next ∈ samePathAt (types.map (·.shape)) id) : id.index < types.length := by
  refine Nat.lt_of_not_le fun hge => ?_
  rw [samePathAt, shapeAt, List.getElem?_eq_none (by simpa using hge)] at h
  cases h

/-- The order is that of the search by recursion. -/
theorem samePathOrder_eq (types : List Defined) : samePathOrder types =
    match Graph.topological (samePathInside types) (handles types.length) with
    | .ok order => .ok order
    | .error cycle => .error (.unionCycle (nameAt types (cycle.getLast?.getD ⟨0⟩))) := by
  rw [samePathOrder, CycleSearch.search_eq_topological, samePathInside, handles]
  cases Graph.topological (CycleSearch.inside (samePathAt (types.map (·.shape))) types.length)
    ((List.range types.length).map TypeId.mk) <;> rfl

theorem topological_of_samePathOrder {types : List Defined} {order : List TypeId}
    (h : samePathOrder types = .ok order) :
    Graph.topological (samePathInside types) (handles types.length) = .ok order := by
  rw [samePathOrder_eq] at h
  split at h
  · next h' => rw [h', Except.ok.inj h]
  · cases h

/-- Types outside of the list stand below those of the list. -/
theorem rank_of_samePathOrder {types : List Defined} {order : List TypeId}
    (h : samePathOrder types = .ok order) :
    ∃ rank : TypeId → Nat,
      ∀ id, ∀ next ∈ samePathAt (types.map (·.shape)) id, rank next < rank id := by
  obtain ⟨hord, hall⟩ := Graph.ordered_of_topological (topological_of_samePathOrder h)
  refine ⟨fun id => if id.index < types.length then order.idxOf id + 1 else 0,
    fun id next hnext => ?_⟩
  have hid := index_lt_of_mem_samePathAt hnext
  dsimp only
  rw [if_pos hid]
  by_cases hin : next.index < types.length
  · rw [if_pos hin]
    have hmem : id ∈ handles types.length :=
      List.mem_map.mpr ⟨id.index, List.mem_range.mpr hid, rfl⟩
    exact Nat.succ_lt_succ
      (hord.idxOf_lt (hall id hmem) (mem_samePathInside_iff.mpr ⟨hnext, hin⟩))
  · rw [if_neg hin]
    exact Nat.succ_pos _

namespace Builder

/-- The frozen schema, or the first fault: a type without a body; a product whose
computed fields cannot be ordered, an empty union or inspect shape; a type that leads
to itself at the same source value; an inspected key that a target does not read. -/
def freeze (b : Builder) : Except SchemaError Registry := do
  let types ← b.declarations.mapM Declaration.defined
  let plans ← types.mapM Defined.plan
  match h : samePathOrder types with
  | .error e => throw e
  | .ok _ =>
    checkInspects types
    return {
      defs := (freezeAll types plans).toArray
      table := b.table.entries
      acyclic := by
        rw [List.toList_toArray, map_shape_freezeAll]
        exact rank_of_samePathOrder h }

end Builder

end TypedTree
