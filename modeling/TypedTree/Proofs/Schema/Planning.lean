/-
Planning of computed fields.

Main statements:

* `Product.DependsOn` — a computed field depends on another computed field, by their names;
* `Product.IsPlan` — what a plan has to be: every computed field once and behind those it depends
  on, with the positions of its dependencies;
* `Product.Table.onCycle_iff` — computed fields depend on each other in a circle as positions if and
  only if they do as names;
* `Product.plan_exact` — there is a plan if and only if field names are distinct, dependencies are
  fields and no computed field depends on itself in the end; what is reported else is such a
  circle.

Design notes: the search for an order knows positions only, and a fault and the rules know names
only. As long as names are distinct the two say the same.
-/
import TypedTree.Proofs.Graph.Topological
import TypedTree.Proofs.Schema.Evaluation

namespace TypedTree

open Relation (TransGen)

namespace Product

variable {p : Product} {t : String} {table : List (Option (List Nat))}

/-! ### Names and positions -/

/-- A computed field depends on a computed field. -/
def DependsOn (p : Product) (name dep : String) : Prop :=
  (∃ field ∈ p.fields, field.name = name ∧ ∃ rule, field.rule? = some rule ∧
    dep ∈ rule.dependencies) ∧
  ∃ field ∈ p.fields, field.name = dep ∧ field.isComputed = true

/-- The dependencies of computed fields are fields. -/
def DependenciesKnown (p : Product) : Prop :=
  ∀ field ∈ p.fields, ∀ rule, field.rule? = some rule → ∀ dep ∈ rule.dependencies,
    dep ∈ p.fieldNames

/-- The name of the field at a position. -/
def nameAt (p : Product) (i : Nat) : String := p.fieldNames[i]?.getD ""

theorem fieldNames_getElem? {i : Nat} {field : Field} (h : p.fields[i]? = some field) :
    p.fieldNames[i]? = some field.name := by
  rw [fieldNames, List.getElem?_map, h]
  rfl

theorem nameAt_of_getElem? {i : Nat} {field : Field} (h : p.fields[i]? = some field) :
    p.nameAt i = field.name := by
  rw [nameAt, fieldNames_getElem? h, Option.getD_some]

theorem position_unique (hnodup : p.fieldNames.Nodup) {i j : Nat} {name : String}
    (hi : p.fieldNames[i]? = some name) (hj : p.fieldNames[j]? = some name) : i = j := by
  obtain ⟨hlt, -⟩ := List.getElem?_eq_some_iff.mp hi
  exact (List.getElem?_inj hlt hnodup).mp (hi.trans hj.symm)

theorem mem_computedDependencies_iff {i j : Nat} :
    j ∈ computedDependencies table i ↔ j ∈ dependenciesAt table i ∧ IsComputedAt table j :=
  List.mem_filter

theorem mem_computedPositions_iff {i : Nat} :
    i ∈ computedPositions table ↔ IsComputedAt table i := by
  rw [computedPositions, List.mem_filter, List.mem_range]
  refine and_iff_right_of_imp fun h => ?_
  by_contra hge
  rw [List.getElem?_eq_none (Nat.le_of_not_lt hge)] at h
  cases h

/-- Only computed fields have dependencies. -/
theorem mem_computedPositions_of_ne_nil {i : Nat} (h : computedDependencies table i ≠ []) :
    i ∈ computedPositions table := by
  obtain ⟨j, hj⟩ := List.exists_mem_of_ne_nil _ h
  have hj := (mem_computedDependencies_iff.mp hj).1
  rw [mem_computedPositions_iff, IsComputedAt]
  cases hentry : table[i]?.getD none with
  | none =>
    rw [dependenciesAt, hentry] at hj
    cases hj
  | some _ => rfl

section

variable (htable : p.Table t table)
include htable

theorem Table.isComputedAt_iff {i : Nat} :
    IsComputedAt table i ↔ ∃ field, p.fields[i]? = some field ∧ field.isComputed = true := by
  constructor
  · intro h
    obtain ⟨field, hfield⟩ := htable.exists_of_isComputedAt h
    exact ⟨field, hfield, (htable.isSome_iff hfield).symm.trans h⟩
  · rintro ⟨field, hfield, hcomp⟩
    exact (htable.isSome_iff hfield).trans hcomp

theorem Table.dependsOn {i j : Nat} (h : j ∈ computedDependencies table i) :
    p.DependsOn (p.nameAt i) (p.nameAt j) := by
  have hi := mem_computedPositions_iff.mp (mem_computedPositions_of_ne_nil (List.ne_nil_of_mem h))
  obtain ⟨hj, hcompj⟩ := mem_computedDependencies_iff.mp h
  obtain ⟨field, hfield, hcomp⟩ := htable.isComputedAt_iff.mp hi
  obtain ⟨dep, hdep, hcompDep⟩ := htable.isComputedAt_iff.mp hcompj
  obtain ⟨rule, hrule⟩ := Option.isSome_iff_exists.mp hcomp
  obtain ⟨name, hname, hpos⟩ :=
    exists_of_forall₂_of_mem_right (htable.dependenciesAt hfield hrule) hj
  rw [nameAt_of_getElem? hfield, nameAt_of_getElem? hdep]
  refine ⟨⟨field, List.mem_of_getElem? hfield, rfl, rule, hrule, ?_⟩,
    dep, List.mem_of_getElem? hdep, rfl, hcompDep⟩
  obtain rfl := Option.some.inj ((fieldNames_getElem? hdep).symm.trans hpos)
  exact hname

variable (hnodup : p.fieldNames.Nodup)
include hnodup

/-- What depends on each other by name does so by position. -/
theorem Table.exists_mem_of_dependsOn {name dep : String} (h : p.DependsOn name dep) :
    ∃ i j, p.fieldNames[i]? = some name ∧ p.fieldNames[j]? = some dep ∧
      j ∈ computedDependencies table i := by
  obtain ⟨⟨field, hmem, rfl, rule, hrule, hdep⟩, other, hother, rfl, hcomp⟩ := h
  obtain ⟨i, hfield⟩ := List.getElem?_of_mem hmem
  obtain ⟨j', hfield'⟩ := List.getElem?_of_mem hother
  obtain ⟨j, hj, hpos⟩ := exists_of_forall₂_of_mem_left (htable.dependenciesAt hfield hrule) hdep
  obtain rfl := position_unique hnodup hpos (fieldNames_getElem? hfield')
  exact ⟨i, j, fieldNames_getElem? hfield, hpos,
    mem_computedDependencies_iff.mpr ⟨hj, htable.isComputedAt_iff.mpr ⟨other, hfield', hcomp⟩⟩⟩

/-- Positions lie on a cycle if and only if names do. -/
theorem Table.onCycle_iff :
    (∃ i, Graph.OnCycle (computedDependencies table) i) ↔
      ∃ name, TransGen p.DependsOn name name := by
  constructor
  · rintro ⟨i, hi⟩
    exact ⟨p.nameAt i, TransGen.lift p.nameAt (fun _ _ h => htable.dependsOn h) _ _ hi⟩
  · rintro ⟨name, hname⟩
    have hleads : ∀ {last}, TransGen p.DependsOn name last → ∃ i j, p.fieldNames[i]? = some name ∧
        p.fieldNames[j]? = some last ∧
        TransGen (fun i j => j ∈ computedDependencies table i) i j := by
      intro last hlast
      induction hlast with
      | single h =>
        obtain ⟨i, j, hi, hj, hij⟩ := htable.exists_mem_of_dependsOn hnodup h
        exact ⟨i, j, hi, hj, .single hij⟩
      | tail _ h ih =>
        obtain ⟨i, j, hi, hj, hij⟩ := ih
        obtain ⟨j', k, hj', hk, hjk⟩ := htable.exists_mem_of_dependsOn hnodup h
        obtain rfl := position_unique hnodup hj hj'
        exact ⟨i, k, hi, hk, hij.tail hjk⟩
    obtain ⟨i, j, hi, hj, hij⟩ := hleads hname
    obtain rfl := position_unique hnodup hi hj
    exact ⟨i, hij⟩

end

/-! ### Plans -/

/-- A plan has every computed field in it and no other, once, with the positions of its
dependencies in the order in which the rule names them; and what a field depends on comes before
it if it is computed as well. -/
structure IsPlan (p : Product) (plan : List ComputeStep) : Prop where
  nodup : (plan.map (·.field)).Nodup
  computed : ∀ i, i ∈ plan.map (·.field) ↔
    ∃ field, p.fields[i]? = some field ∧ field.isComputed = true
  positions : ∀ step ∈ plan, ∀ field rule, p.fields[step.field]? = some field →
    field.rule? = some rule →
      List.Forall₂ (fun dep j => p.fieldNames[j]? = some dep) rule.dependencies step.dependencies
  ordered : ∀ before step after, plan = before ++ step :: after → ∀ j ∈ step.dependencies,
    ∀ field, p.fields[j]? = some field → field.isComputed = true → j ∈ before.map (·.field)

/-- The dependencies of a field have positions if all of them are fields. -/
theorem exists_resolve_iff {field : Field} :
    (∃ entry, p.resolve t field = .ok entry) ↔
      ∀ rule, field.rule? = some rule → ∀ dep ∈ rule.dependencies, dep ∈ p.fieldNames := by
  rw [resolve]
  cases hrule : field.rule? with
  | none => simp
  | some rule =>
    simp only [Option.some.injEq, forall_eq']
    rw [exists_bind_pure_eq_ok_iff, exists_mapM_eq_ok_iff]
    refine forall_congr' fun dep => imp_congr_right fun _ => ?_
    cases hfind : p.fieldNames.findIdx? (· == dep) with
    | none =>
      rw [List.findIdx?_eq_none_iff] at hfind
      simpa using fun hmem => by simpa using hfind dep hmem
    | some i =>
      obtain ⟨hlt, heq, -⟩ := List.findIdx?_eq_some_iff_getElem.mp hfind
      simpa using List.mem_of_getElem (by simpa using heq)

/-- The table of dependencies is there if they all are fields. -/
theorem exists_table_iff : (∃ table, p.Table t table) ↔ p.DependenciesKnown := by
  have hmapM : (∃ table, p.fields.mapM (p.resolve t) = .ok table) ↔ ∃ table, p.Table t table :=
    exists_congr fun _ => mapM_eq_ok_iff
  rw [← hmapM, exists_mapM_eq_ok_iff]
  exact forall_congr' fun _ => forall_congr' fun _ => exists_resolve_iff

/-- With distinct names and known dependencies, only the search for an order is left. -/
theorem plan_eq_of_table (hnodup : p.fieldNames.Nodup) (htable : p.Table t table) :
    p.plan t =
      match Graph.topological (computedDependencies table) (computedPositions table) with
      | .ok order => .ok (order.map fun i => ⟨i, dependenciesAt table i⟩)
      | .error cycle => .error (.dependencyCycle t (cycle.map p.nameAt)) := by
  rw [plan, firstRepeated?_eq_none_of_nodup hnodup (by simp), mapM_eq_ok_iff.mpr htable]
  rfl

/-- There is a plan if and only if nothing stands against it. -/
theorem exists_plan_iff : (∃ plan, p.plan t = .ok plan) ↔
    p.fieldNames.Nodup ∧ p.DependenciesKnown ∧ ∀ name, ¬ TransGen p.DependsOn name name := by
  have hsearch : ∀ {table}, p.fieldNames.Nodup → p.Table t table →
      ((∃ plan, p.plan t = .ok plan) ↔ ∀ name, ¬ TransGen p.DependsOn name name) := by
    intro table hnodup htable
    have hcycle := (htable.onCycle_iff hnodup).not
    rw [not_exists, not_exists] at hcycle
    rw [← hcycle, ← Graph.topological_eq_ok_iff fun _ => mem_computedPositions_of_ne_nil,
      plan_eq_of_table hnodup htable]
    cases Graph.topological (computedDependencies table) (computedPositions table) <;> simp
  constructor
  · rintro ⟨plan, hplan⟩
    obtain ⟨hnodup, table, order, htable, -⟩ := of_plan_eq_ok hplan
    exact ⟨hnodup, exists_table_iff.mp ⟨table, htable⟩, (hsearch hnodup htable).mp ⟨plan, hplan⟩⟩
  · rintro ⟨hnodup, hknown, hacyclic⟩
    obtain ⟨table, htable⟩ := exists_table_iff.mpr hknown
    exact (hsearch hnodup htable).mpr hacyclic

theorem isPlan_of_plan_eq_ok {plan : List ComputeStep} (h : p.plan t = .ok plan) :
    p.IsPlan plan := by
  obtain ⟨hnodup, htables⟩ := of_plan_eq_ok h
  obtain ⟨table, -, htable, -⟩ := htables
  rw [plan_eq_of_table hnodup htable] at h
  split at h
  case h_2 => cases h
  next order horder =>
  cases h
  obtain ⟨hordered, hall⟩ := Graph.ordered_of_topological horder
  have hfields : (order.map fun i => (⟨i, dependenciesAt table i⟩ : ComputeStep)).map (·.field) =
      order := by
    rw [List.map_map]
    exact List.map_id order
  refine ⟨hfields.symm ▸ Graph.nodup_of_topological horder, fun i => ?_, ?_, ?_⟩
  · rw [hfields, ← htable.isComputedAt_iff]
    constructor
    · intro hi
      -- A search from computed fields along computed dependencies meets nothing else.
      obtain ⟨start, hstart, hleads⟩ := Graph.leads_of_topological horder i hi
      rcases Relation.ReflTransGen.cases_tail hleads with rfl | ⟨before, -, hstep⟩
      · exact mem_computedPositions_iff.mp hstart
      · exact (mem_computedDependencies_iff.mp hstep).2
    · exact fun hi => hall i (mem_computedPositions_iff.mpr hi)
  · intro step hstep field rule hfield hrule
    obtain ⟨i, -, rfl⟩ := List.mem_map.mp hstep
    exact htable.dependenciesAt hfield hrule
  · intro before step after hsplit j hj field hfield hcomp
    obtain ⟨first, rest, rfl, rfl, hrest⟩ := List.map_eq_append_iff.mp hsplit
    obtain ⟨i, last, rfl, rfl, rfl⟩ := List.map_eq_cons_iff.mp hrest
    have hmem : j ∈ first := hordered first i last rfl j
      (mem_computedDependencies_iff.mpr ⟨hj, htable.isComputedAt_iff.mpr ⟨field, hfield, hcomp⟩⟩)
    rw [List.map_map]
    exact List.mem_map.mpr ⟨j, hmem, rfl⟩

/-- The table of dependencies behind a fault of the search. -/
theorem exists_topological_of_dependencyCycle {type : String} {names : List String}
    (h : p.plan t = .error (.dependencyCycle type names)) :
    ∃ table cycle, p.Table t table ∧ type = t ∧ names = cycle.map p.nameAt ∧
      Graph.topological (computedDependencies table) (computedPositions table) = .error cycle := by
  rw [plan] at h
  split at h
  · cases h
  rcases bind_eq_error_iff.mp h with hfail | ⟨table, htable, h⟩
  · -- The look-up of dependencies has another fault.
    obtain ⟨field, -, hfield⟩ := exists_of_mapM_eq_error hfail
    rw [resolve] at hfield
    split at hfield
    · cases hfield
    · rcases bind_eq_error_iff.mp hfield with hdeps | ⟨positions, -, hpure⟩
      · obtain ⟨dep, -, hdep⟩ := exists_of_mapM_eq_error hdeps
        split at hdep <;> cases hdep
      · cases hpure
  · split at h
    · cases h
    · next cycle hcycle =>
      cases h
      exact ⟨table, cycle, mapM_eq_ok_iff.mp htable, rfl, rfl, hcycle⟩

/-- There is a plan if and only if field names are distinct, the dependencies of computed fields
are fields, and no computed field depends on itself, be it through others. It then has every
computed field in it once, behind those that it depends on and with the positions of its
dependencies. A circle that is reported goes from a field to that field, and each field in it
depends on the next one. -/
theorem plan_exact (p : Product) (t : String) :
    ((∃ plan, p.plan t = .ok plan) ↔
      p.fieldNames.Nodup ∧ p.DependenciesKnown ∧ ∀ name, ¬ TransGen p.DependsOn name name) ∧
    (∀ plan, p.plan t = .ok plan → p.IsPlan plan) ∧
    ∀ type names, p.plan t = .error (.dependencyCycle type names) →
      type = t ∧ names.IsChain p.DependsOn ∧ ∃ name between, names = name :: between ++ [name] := by
  refine ⟨exists_plan_iff, fun plan => isPlan_of_plan_eq_ok, fun type names h => ?_⟩
  obtain ⟨table, cycle, htable, rfl, rfl, hcycle⟩ := exists_topological_of_dependencyCycle h
  obtain ⟨hwalk, i, between, rfl⟩ :=
    Graph.closedWalk_of_topological (fun _ => mem_computedPositions_of_ne_nil) hcycle
  refine ⟨rfl, ?_, p.nameAt i, between.map p.nameAt, by simp⟩
  exact List.isChain_map_of_isChain p.nameAt (fun _ _ h => htable.dependsOn h) hwalk

/-- Two computed fields before what they depend on, and a third one that closes a circle, or does
not. -/
def relay (last : List String) : Product where
  source := { tag := "T" }
  fields := [
    .computed "first" ⟨0⟩ (.custom ["plain", "second", "plain"] .list),
    .required "plain" ⟨0⟩,
    .computed "second" ⟨0⟩ (.custom ["last"] .list),
    .computed "last" ⟨0⟩ (.custom last .list)]

theorem plan_exact_relay :
    ((relay ["plain"]).plan "T" = .ok [⟨3, [1]⟩, ⟨2, [3]⟩, ⟨0, [1, 2, 1]⟩] ∧
      (relay ["plain"]).IsPlan [⟨3, [1]⟩, ⟨2, [3]⟩, ⟨0, [1, 2, 1]⟩]) ∧
    (relay ["second"]).plan "T" = .error (.dependencyCycle "T" ["second", "last", "second"]) ∧
      ["second", "last", "second"].IsChain (relay ["second"]).DependsOn := by
  have hplan : (relay ["plain"]).plan "T" = .ok [⟨3, [1]⟩, ⟨2, [3]⟩, ⟨0, [1, 2, 1]⟩] := by rfl
  have hcycle : (relay ["second"]).plan "T" =
      .error (.dependencyCycle "T" ["second", "last", "second"]) := by rfl
  exact ⟨⟨hplan, (plan_exact _ _).2.1 _ hplan⟩, hcycle, ((plan_exact _ _).2.2 _ _ hcycle).2.1⟩

end Product

end TypedTree
