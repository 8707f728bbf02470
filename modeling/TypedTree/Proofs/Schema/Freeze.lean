/-
What freezing keeps of a schema.

A registry has the types of its builder under the same handles and names, and each
product has a plan for its computed fields. Main statements:

* `Builder.freeze_eq_ok` — the checks that a builder has passed;
* `Builder.shape_of_freeze`, `Builder.name_of_freeze`, `Builder.find?_of_freeze` — bodies,
  names and look-ups stay;
* `Builder.plan_of_freeze` — the plan of a product orders its computed fields;
* `Builder.traversable_of_freeze` — the fields below which nodes can be found, from the bodies.
-/
import TypedTree.Proofs.Traversal
import TypedTree.Schema.Registry

namespace TypedTree

namespace Builder

variable {b : Builder} {reg : Registry}

/-- The checks that a frozen builder has passed, and what the registry is made of. -/
theorem freeze_eq_ok (h : b.freeze = .ok reg) :
    ∃ types plans, b.declarations.mapM Declaration.defined = .ok types ∧
      types.mapM Defined.plan = .ok plans ∧ checkInspects types = .ok () ∧
      reg.defs.toList = freezeAll types plans := by
  unfold freeze at h
  obtain ⟨types, htypes, h⟩ := bind_eq_ok_iff.mp h
  obtain ⟨plans, hplans, h⟩ := bind_eq_ok_iff.mp h
  split at h
  · cases h
  · obtain ⟨⟨⟩, hcheck, h⟩ := bind_eq_ok_iff.mp h
    cases h
    exact ⟨types, plans, htypes, hplans, hcheck, by simp⟩

theorem defined_eq_ok {d : Declaration} {t : Defined} (h : d.defined = .ok t) :
    d.body = some t.shape ∧ t.name = d.name := by
  unfold Declaration.defined at h
  split at h
  · next shape hbody =>
    cases h
    exact ⟨hbody, rfl⟩
  · cases h

/-- Declarations with bodies are those of the types. -/
theorem body?_of_defined {types : List Defined}
    (h : b.declarations.mapM Declaration.defined = .ok types) (id : TypeId) :
    b.body? id = types[id.index]?.map (·.shape) ∧ b.name id = nameAt types id := by
  have htypes := mapM_eq_ok_iff.mp h
  have hlen : b.declarations.length = types.length := htypes.length_eq
  rw [body?, name, declaration?, nameAt]
  rcases Nat.lt_or_ge id.index types.length with hlt | hge
  · have hlt' : id.index < b.declarations.length := by omega
    obtain ⟨hbody, hname⟩ := defined_eq_ok (htypes.get hlt' hlt)
    rw [List.getElem?_eq_getElem hlt, List.getElem?_eq_getElem hlt']
    exact ⟨hbody, hname.symm⟩
  · rw [List.getElem?_eq_none hge, List.getElem?_eq_none (by omega)]
    exact ⟨rfl, rfl⟩

theorem def?_eq_map_freeze {types : List Defined} {plans : List (List ComputeStep)}
    (hdefs : reg.defs.toList = freezeAll types plans) (id : TypeId) :
    reg.def? id = (types[id.index]?).map fun d =>
      d.freeze (types.map (·.shape)) (plans[id.index]?.getD []) := by
  rw [Registry.def?, ← Array.getElem?_toList, hdefs, freezeAll, List.getElem?_mapIdx]

/-- The frozen type behind a handle, from its declaration. -/
theorem def?_of_freeze (h : b.freeze = .ok reg) (id : TypeId) :
    match b.declaration? id, reg.def? id with
    | some d, some t =>
      d.body = some t.shape ∧ t.name = d.name ∧
        ∀ p, t.shape = .product p → p.plan t.name = .ok t.plan
    | none, none => True
    | _, _ => False := by
  obtain ⟨types, plans, htypes, hplans, -, hdefs⟩ := freeze_eq_ok h
  have htypes := mapM_eq_ok_iff.mp htypes
  have hplans := mapM_eq_ok_iff.mp hplans
  have hlen : b.declarations.length = types.length := htypes.length_eq
  have hlen' : types.length = plans.length := hplans.length_eq
  rw [def?_eq_map_freeze hdefs, declaration?]
  rcases Nat.lt_or_ge id.index types.length with hlt | hge
  · have hlt' : id.index < b.declarations.length := by omega
    have hlt'' : id.index < plans.length := by omega
    rw [List.getElem?_eq_getElem hlt, List.getElem?_eq_getElem hlt',
      List.getElem?_eq_getElem hlt'']
    obtain ⟨hbody, hname⟩ := defined_eq_ok (htypes.get hlt' hlt)
    refine ⟨hbody, hname, ?_⟩
    intro p hp
    have hplan := hplans.get hlt hlt''
    simp only [List.get_eq_getElem] at hplan
    simp only [Defined.freeze] at hp ⊢
    rwa [Defined.plan, hp] at hplan
  · rw [List.getElem?_eq_none hge, List.getElem?_eq_none (by omega)]
    trivial

/-- Bodies stay. A handle that was not given out has the union without alternatives. -/
theorem shape_of_freeze (h : b.freeze = .ok reg) (id : TypeId) :
    reg.shape id = (b.body? id).getD (.union []) := by
  have hdef := def?_of_freeze h id
  rw [Registry.shape, body?]
  cases hd : b.declaration? id <;> cases ht : reg.def? id <;> simp only [hd, ht] at hdef
  · rfl
  · simp [hdef.1]

/-- A builder that can be frozen gives a registry with its bodies. -/
theorem exists_freeze_of_check (h : (match b.freeze with
      | .ok _ => true
      | .error _ => false) = true) :
    ∃ reg, b.freeze = .ok reg ∧ ∀ id, reg.shape id = (b.body? id).getD (.union []) := by
  cases hfreeze : b.freeze with
  | ok reg => exact ⟨reg, rfl, shape_of_freeze hfreeze⟩
  | error e =>
    rw [hfreeze] at h
    cases h

theorem name_of_freeze (h : b.freeze = .ok reg) (id : TypeId) : reg.name id = b.name id := by
  have hdef := def?_of_freeze h id
  rw [Registry.name, name]
  cases hd : b.declaration? id <;> cases ht : reg.def? id <;> simp only [hd, ht] at hdef
  · rfl
  · simp [hdef.2.1]

theorem size_of_freeze (h : b.freeze = .ok reg) : reg.size = b.size := by
  obtain ⟨types, plans, htypes, -, -, hdefs⟩ := freeze_eq_ok h
  rw [Registry.size, ← Array.length_toList, hdefs, freezeAll, List.length_mapIdx, size,
    (mapM_eq_ok_iff.mp htypes).length_eq]

/-- The table of names is handed on. -/
theorem table_of_freeze (h : b.freeze = .ok reg) : reg.table = b.table.entries := by
  unfold freeze at h
  obtain ⟨types, -, h⟩ := bind_eq_ok_iff.mp h
  obtain ⟨plans, -, h⟩ := bind_eq_ok_iff.mp h
  split at h
  · cases h
  · obtain ⟨⟨⟩, -, h⟩ := bind_eq_ok_iff.mp h
    cases h
    rfl

theorem find?_of_freeze (h : b.freeze = .ok reg) (name : String) :
    reg.find? name = b.find? name := by
  rw [Registry.find?, table_of_freeze h, find?, NameTable.find?]

/-- The plan of a product orders its computed fields. -/
theorem plan_of_freeze (h : b.freeze = .ok reg) {id : TypeId} {p : Product}
    (hp : reg.shape id = .product p) : p.plan (reg.name id) = .ok (reg.plan id) := by
  have hdef := def?_of_freeze h id
  rw [Registry.shape] at hp
  rw [Registry.name, Registry.plan]
  cases ht : reg.def? id with
  | none => simp [ht] at hp
  | some t =>
    cases hd : b.declaration? id <;> simp only [hd, ht] at hdef
    rw [ht] at hp
    exact hdef.2.2 p hp

/-- The fields below which nodes can be found are read off the bodies of the registry. -/
theorem traversable_of_freeze (h : b.freeze = .ok reg) (id : TypeId) :
    reg.traversable id = (reg.shape id).traversable (reg.defs.toList.map (·.shape)) := by
  obtain ⟨types, plans, -, -, -, hdefs⟩ := freeze_eq_ok h
  rw [Registry.traversable, Registry.shape, def?_eq_map_freeze hdefs, hdefs, map_shape_freezeAll]
  cases types[id.index]? <;> rfl

end Builder

end TypedTree
