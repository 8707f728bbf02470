/-
The check that the targets of inspect shapes read the inspected key.

Main statements:

* `Product.ReadsKey` — a product has a field that takes the value of a key;
* `Builder.LeadsByUnions` — a type leads to another one through unions alone;
* `Builder.exists_freeze_iff` — a schema whose other checks pass can be frozen if and only if
  every product that the target of an inspect shape leads to through unions reads the
  inspected key;
* `Builder.freeze_iff_targets_read` — otherwise the fault names such a product;
* `Builder.freeze_without_reading` — nullables and inspect shapes among the targets are not
  looked into.

Design notes: a translation goes through nullables and inspect shapes as it goes through
unions, so a schema may be frozen with a product that gets an inspected value and has no
field for it.
-/
import TypedTree.Proofs.Graph.Reach
import TypedTree.Proofs.Schema.Check
import TypedTree.Proofs.Schema.Freeze

namespace TypedTree

/-- A product has a field that is not computed and takes the value of a key. -/
def Product.ReadsKey (p : Product) (key : String) : Prop :=
  ∃ field ∈ p.fields, field.isComputed = false ∧ field.source = .key key

theorem Product.any_readsKey_iff {p : Product} {key : String} :
    p.fields.any (·.readsKey key) = true ↔ p.ReadsKey key := by
  rw [List.any_eq_true]
  exact exists_congr fun field => and_congr_right fun _ => Field.readsKey_iff

/-! ### One inspect shape -/

namespace Inspect

variable {shapes : List Shape} {i : Inspect}

theorem mem_handles_iff {count : Nat} {id : TypeId} : id ∈ handles count ↔ id.index < count := by
  rw [handles, List.mem_map]
  constructor
  · rintro ⟨index, h, rfl⟩
    exact List.mem_range.mp h
  · exact fun h => ⟨id.index, List.mem_range.mpr h, rfl⟩

/-- A search among bodies finds all types that they lead to. -/
theorem mem_reach_shapeAt_iff {next : Shape → List TypeId} (hnext : next (.union []) = [])
    {starts : List TypeId} {last : TypeId} :
    last ∈ Graph.reach (fun id => next (shapeAt shapes id)) shapes.length starts ↔
      ∃ start ∈ starts, Graph.Leads (fun id => next (shapeAt shapes id)) start last := by
  refine Graph.mem_reach_iff (handles shapes.length).toFinset ?_ ?_
  · intro id hne
    rw [List.mem_toFinset, mem_handles_iff]
    by_contra hge
    rw [shapeAt, List.getElem?_eq_none (by omega)] at hne
    exact hne hnext
  · refine Nat.le_trans (List.toFinset_card_le _) ?_
    simp [handles]

/-- Whether a type is a product that does not read the inspected key. -/
def passesBy (shapes : List Shape) (i : Inspect) (id : TypeId) : Bool :=
  match shapeAt shapes id with
  | .product p => !p.fields.any (·.readsKey i.field)
  | _ => false

theorem passesBy_iff {id : TypeId} :
    i.passesBy shapes id = true ↔ ∃ p, shapeAt shapes id = .product p ∧ ¬ p.ReadsKey i.field := by
  rw [passesBy]
  cases shapeAt shapes id with
  | product p => simp [← Product.any_readsKey_iff]
  | primitive | array | nullable | nameSet | union | inspect => simp

/-- A target leads through unions to a product that does not read the inspected key. -/
def Misses (shapes : List Shape) (i : Inspect) (last : TypeId) : Prop :=
  ∃ arm ∈ i.arms, ∃ p, Graph.Leads (fun id => (shapeAt shapes id).alternatives) arm.target last ∧
    shapeAt shapes last = .product p ∧ ¬ p.ReadsKey i.field

theorem misses_iff {last : TypeId} :
    i.Misses shapes last ↔
      last ∈ Graph.reach (fun id => (shapeAt shapes id).alternatives) shapes.length
          (i.arms.map (·.target)) ∧ i.passesBy shapes last = true := by
  rw [mem_reach_shapeAt_iff rfl, passesBy_iff]
  constructor
  · rintro ⟨arm, harm, p, hleads, hp⟩
    exact ⟨⟨arm.target, List.mem_map_of_mem harm, hleads⟩, p, hp⟩
  · rintro ⟨⟨start, hstart, hleads⟩, p, hp⟩
    obtain ⟨arm, harm, rfl⟩ := List.mem_map.mp hstart
    exact ⟨arm, harm, p, hleads, hp⟩

theorem unread?_eq_find? : i.unread? shapes =
    (Graph.reach (fun id => (shapeAt shapes id).alternatives) shapes.length
      (i.arms.map (·.target))).find? (i.passesBy shapes) := rfl

theorem unread?_eq_none_iff : i.unread? shapes = none ↔ ∀ last, ¬ i.Misses shapes last := by
  rw [unread?_eq_find?, List.find?_eq_none]
  refine forall_congr' fun last => ?_
  rw [misses_iff, not_and]

theorem misses_of_unread?_eq_some {last : TypeId} (h : i.unread? shapes = some last) :
    i.Misses shapes last := by
  rw [unread?_eq_find?] at h
  exact misses_iff.mpr ⟨List.mem_of_find?_eq_some h, List.find?_some h⟩

end Inspect

/-! ### All inspect shapes -/

theorem checkInspects_eq_ok_iff {types : List Defined} :
    checkInspects types = .ok () ↔ ∀ d ∈ types, ∀ i, d.shape = .inspect i →
      ∀ last, ¬ i.Misses (types.map (·.shape)) last := by
  rw [checkInspects, forM_eq_ok_iff]
  refine forall_congr' fun d => forall_congr' fun _ => ?_
  cases hshape : d.shape with
  | inspect i =>
    simp only [Shape.inspect.injEq, forall_eq', ← Inspect.unread?_eq_none_iff]
    cases i.unread? (types.map (·.shape)) <;> simp
  | primitive | array | nullable | nameSet | product | union => simp

theorem of_checkInspects_eq_error {types : List Defined} {e : SchemaError}
    (h : checkInspects types = .error e) :
    ∃ d ∈ types, ∃ i last, d.shape = .inspect i ∧ i.Misses (types.map (·.shape)) last ∧
      e = .inspectField d.name i.field (nameAt types last) := by
  obtain ⟨d, hd, h⟩ := exists_of_forM_eq_error h
  split at h
  · next i hshape =>
    split at h
    · next last hunread =>
      cases h
      exact ⟨d, hd, i, last, hshape, Inspect.misses_of_unread?_eq_some hunread, rfl⟩
    · cases h
  · cases h

/-! ### Freezing -/

namespace Builder

variable {b : Builder} {types : List Defined}

/-- The types of a schema that passes all checks but that of the inspect shapes: every type
has a body, computed fields can be ordered, no union and no inspect shape is empty, and no
type leads to itself at the same source value. -/
def Prepares (b : Builder) (types : List Defined) : Prop :=
  b.declarations.mapM Declaration.defined = .ok types ∧
    (∃ plans, types.mapM Defined.plan = .ok plans) ∧ ∃ order, samePathOrder types = .ok order

theorem body?_of_prepares (h : b.Prepares types) (id : TypeId) :
    b.body? id = types[id.index]?.map (·.shape) ∧ b.name id = nameAt types id :=
  body?_of_defined h.1 id

theorem shapeAt_of_prepares (h : b.Prepares types) (id : TypeId) :
    shapeAt (types.map (·.shape)) id = (b.body? id).getD (.union []) := by
  rw [shapeAt, (body?_of_prepares h id).1, List.getElem?_map]

theorem shapeAt_eq_product_iff (h : b.Prepares types) {id : TypeId} {p : Product} :
    shapeAt (types.map (·.shape)) id = .product p ↔ b.body? id = some (.product p) := by
  rw [shapeAt_of_prepares h]
  cases b.body? id <;> simp

/-- The alternatives of a type; only a union has any. -/
def alternatives (b : Builder) (id : TypeId) : List TypeId :=
  ((b.body? id).map (·.alternatives)).getD []

/-- A type leads to another one through unions alone. -/
def LeadsByUnions (b : Builder) : TypeId → TypeId → Prop := Graph.Leads b.alternatives

theorem alternatives_of_prepares (h : b.Prepares types) :
    (fun id => (shapeAt (types.map (·.shape)) id).alternatives) = b.alternatives := by
  funext id
  rw [shapeAt_of_prepares h, alternatives]
  cases b.body? id <;> rfl

theorem misses_iff (h : b.Prepares types) {i : Inspect} {last : TypeId} :
    i.Misses (types.map (·.shape)) last ↔ ∃ arm ∈ i.arms, ∃ p, b.LeadsByUnions arm.target last ∧
      b.body? last = some (.product p) ∧ ¬ p.ReadsKey i.field := by
  rw [Inspect.Misses, alternatives_of_prepares h]
  simp only [shapeAt_eq_product_iff h]
  rfl

end Builder

/-! ### Faults of the other checks -/

/-- A fault other than that a target of an inspect shape does not read its key. -/
def SchemaError.IsOther (e : SchemaError) : Prop :=
  ∀ type key target, e ≠ .inspectField type key target

theorem Declaration.isOther_of_defined {d : Declaration} {e : SchemaError}
    (h : d.defined = .error e) : e.IsOther := by
  rw [defined] at h
  split at h
  · cases h
  · cases h
    simp [SchemaError.IsOther]

theorem Product.isOther_of_plan {p : Product} {t : String} {e : SchemaError}
    (h : p.plan t = .error e) : e.IsOther := by
  rw [plan] at h
  -- A field name given twice, a dependency that is no field, or dependencies in a circle.
  split at h
  · change Except.error _ = Except.error e at h
    cases h
    simp [SchemaError.IsOther]
  rcases bind_eq_error_iff.mp h with htable | ⟨table, -, h⟩
  · obtain ⟨field, -, hfield⟩ := exists_of_mapM_eq_error htable
    rw [resolve] at hfield
    split at hfield
    · cases hfield
    · rcases bind_eq_error_iff.mp hfield with hdeps | ⟨positions, -, hpure⟩
      · obtain ⟨dep, -, hdep⟩ := exists_of_mapM_eq_error hdeps
        split at hdep
        · cases hdep
        · cases hdep
          simp [SchemaError.IsOther]
      · cases hpure
  · split at h
    · cases h
    · cases h
      simp [SchemaError.IsOther]

theorem Defined.isOther_of_plan {d : Defined} {e : SchemaError} (h : d.plan = .error e) :
    e.IsOther := by
  rw [plan] at h
  split at h
  · exact Product.isOther_of_plan h
  · cases h
    simp [SchemaError.IsOther]
  · split at h
    · cases h
      simp [SchemaError.IsOther]
    · cases h
  · cases h

theorem isOther_of_samePathOrder {types : List Defined} {e : SchemaError}
    (h : samePathOrder types = .error e) : e.IsOther := by
  rw [samePathOrder] at h
  split at h
  · cases h
  · cases h
    simp [SchemaError.IsOther]

namespace Builder

variable {b : Builder} {types : List Defined}

theorem prepares_of_freeze_eq_ok {reg : Registry} (h : b.freeze = .ok reg) :
    ∃ types, b.Prepares types ∧ checkInspects types = .ok () := by
  unfold freeze at h
  obtain ⟨types, htypes, h⟩ := bind_eq_ok_iff.mp h
  obtain ⟨plans, hplans, h⟩ := bind_eq_ok_iff.mp h
  split at h
  · cases h
  · next order horder =>
    obtain ⟨⟨⟩, hcheck, -⟩ := bind_eq_ok_iff.mp h
    exact ⟨types, ⟨htypes, ⟨plans, hplans⟩, order, horder⟩, hcheck⟩

theorem prepares_of_freeze_eq_error {e : SchemaError} (h : b.freeze = .error e) :
    (∃ types, b.Prepares types ∧ checkInspects types = .error e) ∨ e.IsOther := by
  unfold freeze at h
  rcases bind_eq_error_iff.mp h with hfail | ⟨types, htypes, h⟩
  · obtain ⟨d, -, hd⟩ := exists_of_mapM_eq_error hfail
    exact .inr (Declaration.isOther_of_defined hd)
  rcases bind_eq_error_iff.mp h with hfail | ⟨plans, hplans, h⟩
  · obtain ⟨d, -, hd⟩ := exists_of_mapM_eq_error hfail
    exact .inr (Defined.isOther_of_plan hd)
  split at h
  · next hfail =>
    cases h
    exact .inr (isOther_of_samePathOrder hfail)
  · next order horder =>
    rcases bind_eq_error_iff.mp h with hcheck | ⟨-, -, h⟩
    · exact .inl ⟨types, ⟨htypes, ⟨plans, hplans⟩, order, horder⟩, hcheck⟩
    · cases h

theorem exists_freeze_of_prepares (h : b.Prepares types) (hcheck : checkInspects types = .ok ()) :
    ∃ reg, b.freeze = .ok reg := by
  obtain ⟨htypes, ⟨plans, hplans⟩, order, horder⟩ := h
  unfold freeze
  simp only [htypes, hplans, bind, Except.bind]
  split
  · next hfail =>
    rw [horder] at hfail
    cases hfail
  · rw [hcheck]
    exact ⟨_, rfl⟩

/-- A schema is frozen if and only if it passes all other checks and every product that the
target of an inspect shape leads to through unions has a field for the inspected key. -/
theorem exists_freeze_iff (b : Builder) :
    (∃ reg, b.freeze = .ok reg) ↔ (∃ types, b.Prepares types) ∧
      ∀ id i, b.body? id = some (.inspect i) → ∀ arm ∈ i.arms, ∀ last p,
        b.LeadsByUnions arm.target last → b.body? last = some (.product p) →
          p.ReadsKey i.field := by
  constructor
  · rintro ⟨reg, hreg⟩
    obtain ⟨types, hprep, hcheck⟩ := prepares_of_freeze_eq_ok hreg
    refine ⟨⟨types, hprep⟩, fun id i hi arm harm last p hleads hp => ?_⟩
    rw [(body?_of_prepares hprep id).1] at hi
    obtain ⟨d, hd, hshape⟩ := Option.map_eq_some_iff.mp hi
    by_contra hnot
    exact checkInspects_eq_ok_iff.mp hcheck d (List.mem_of_getElem? hd) i hshape last
      ((misses_iff hprep).mpr ⟨arm, harm, p, hleads, hp, hnot⟩)
  · rintro ⟨⟨types, hprep⟩, hread⟩
    refine exists_freeze_of_prepares hprep (checkInspects_eq_ok_iff.mpr ?_)
    intro d hd i hshape last hmisses
    obtain ⟨arm, harm, p, hleads, hp, hnot⟩ := (misses_iff hprep).mp hmisses
    obtain ⟨index, hindex⟩ := List.getElem?_of_mem hd
    have hbody : b.body? ⟨index⟩ = some (.inspect i) := by
      rw [(body?_of_prepares hprep ⟨index⟩).1, hindex]
      exact congrArg some hshape
    exact hnot (hread ⟨index⟩ i hbody arm harm last p hleads hp)

/-- The same with what the check finds fault with: a fault of this check names an inspect shape and
such a product without a field. -/
theorem freeze_iff_targets_read (b : Builder) :
    ((∃ reg, b.freeze = .ok reg) ↔ (∃ types, b.Prepares types) ∧
      ∀ id i, b.body? id = some (.inspect i) → ∀ arm ∈ i.arms, ∀ last p,
        b.LeadsByUnions arm.target last → b.body? last = some (.product p) →
          p.ReadsKey i.field) ∧
    ∀ type key target, b.freeze = .error (.inspectField type key target) →
      (∃ types, b.Prepares types) ∧
      ∃ id i, b.body? id = some (.inspect i) ∧ b.name id = type ∧ i.field = key ∧
        ∃ arm ∈ i.arms, ∃ last p, b.LeadsByUnions arm.target last ∧
          b.body? last = some (.product p) ∧ b.name last = target ∧ ¬ p.ReadsKey key := by
  refine ⟨exists_freeze_iff b, ?_⟩
  intro type key target h
  rcases prepares_of_freeze_eq_error h with ⟨types, hprep, hcheck⟩ | hother
  · obtain ⟨d, hd, i, last, hshape, hmisses, heq⟩ := of_checkInspects_eq_error hcheck
    cases heq
    obtain ⟨arm, harm, p, hleads, hp, hnot⟩ := (misses_iff hprep).mp hmisses
    obtain ⟨index, hindex⟩ := List.getElem?_of_mem hd
    obtain ⟨hbody, hname⟩ := body?_of_prepares hprep ⟨index⟩
    refine ⟨⟨types, hprep⟩, ⟨index⟩, i, ?_, ?_, rfl, arm, harm, last, p, hleads, hp,
      (body?_of_prepares hprep last).2, hnot⟩
    · rw [hbody, hindex]
      exact congrArg some hshape
    · rw [hname, nameAt, hindex]
      rfl
  · exact absurd rfl (hother type key target)

/-! ### A product without the inspected key -/

/-- A product that does not read the key of an inspect shape, with a type between the two. -/
def otherKey (between : Shape) : Builder := { declarations := [
  { name := "number", body := some (.primitive .number) },
  { name := "Target", body := some (.product {
      source := { tag := "T" }, fields := [.required "other" ⟨0⟩] }) },
  { name := "Between", body := some between },
  { name := "Pick", body := some (.inspect {
      field := "value", probe := ⟨0⟩, arms := [⟨⟨0⟩, ⟨2⟩⟩] }) }] }

/-- Behind a union the product is found. -/
theorem freeze_otherKey_union :
    (otherKey (.union [⟨1⟩])).freeze = .error (.inspectField "Pick" "value" "Target") ∧
      ∃ id i, (otherKey (.union [⟨1⟩])).body? id = some (.inspect i) ∧ i.field = "value" ∧
        ∃ arm ∈ i.arms, ∃ last p, (otherKey (.union [⟨1⟩])).LeadsByUnions arm.target last ∧
          (otherKey (.union [⟨1⟩])).body? last = some (.product p) ∧ ¬ p.ReadsKey "value" := by
  have hfreeze : (otherKey (.union [⟨1⟩])).freeze =
      .error (.inspectField "Pick" "value" "Target") := eq_error_of_check (by decide +kernel)
  obtain ⟨-, id, i, hi, -, hkey, arm, harm, last, p, hleads, hp, -, hnot⟩ :=
    (freeze_iff_targets_read (otherKey (.union [⟨1⟩]))).2 "Pick" "value" "Target" hfreeze
  exact ⟨hfreeze, id, i, hi, hkey, arm, harm, last, p, hleads, hp, hnot⟩

/-- Behind a nullable or another inspect shape the product is not found, and the schema is
frozen. -/
theorem freeze_without_reading :
    (¬ ∀ (b : Builder) (reg : Registry) (id inner : TypeId) (i : Inspect) (arm : Arm)
      (p : Product), b.freeze = .ok reg → reg.shape id = .inspect i → arm ∈ i.arms →
      reg.shape arm.target = .nullable inner → reg.shape inner = .product p →
      p.ReadsKey i.field) ∧
    ¬ ∀ (b : Builder) (reg : Registry) (id : TypeId) (i j : Inspect) (arm next : Arm)
      (p : Product), b.freeze = .ok reg → reg.shape id = .inspect i → arm ∈ i.arms →
      reg.shape arm.target = .inspect j → next ∈ j.arms → reg.shape next.target = .product p →
      p.ReadsKey i.field := by
  have hnot : ¬ ({ source := { tag := "T" }, fields := [.required "other" ⟨0⟩] } :
      Product).ReadsKey "value" := by
    rw [← Product.any_readsKey_iff]
    decide
  constructor
  · intro h
    obtain ⟨reg, hreg, hshape⟩ : ∃ reg, (otherKey (.nullable ⟨1⟩)).freeze = .ok reg ∧ _ :=
      exists_freeze_of_check (by decide +kernel)
    exact hnot (h _ reg ⟨3⟩ ⟨1⟩ _ ⟨⟨0⟩, ⟨2⟩⟩ _ hreg (hshape ⟨3⟩) List.mem_cons_self
      (hshape ⟨2⟩) (hshape ⟨1⟩))
  · intro h
    let j : Inspect := { field := "other", probe := ⟨0⟩, arms := [⟨⟨0⟩, ⟨1⟩⟩] }
    obtain ⟨reg, hreg, hshape⟩ : ∃ reg, (otherKey (.inspect j)).freeze = .ok reg ∧ _ :=
      exists_freeze_of_check (by decide +kernel)
    exact hnot (h _ reg ⟨3⟩ _ j ⟨⟨0⟩, ⟨2⟩⟩ ⟨⟨0⟩, ⟨1⟩⟩ _ hreg (hshape ⟨3⟩) List.mem_cons_self
      (hshape ⟨2⟩) List.mem_cons_self (hshape ⟨1⟩))

end Builder

end TypedTree
