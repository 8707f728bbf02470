/-
Checks of a registry that can be run.

A registry that is built from given data is checked type by type. Main statements:

* `passes`, `exists_of_check` — a registry that passes a check is there and passes it;
* `Registry.mem_ids_of_shape_ne` — every type with a body is among those checked;
* `Registry.sourcesSatisfy` — a check of where all fields read;
* `Registry.leavesSatisfy`, `Registry.samePathSatisfy` — checks of all types that a type
  leads to, within a bound on the steps.
-/
import TypedTree.Catalogue.Registry

namespace TypedTree

/-- Whether a registry is there and passes a check. -/
def passes (result : Except SchemaError Registry) (check : Registry → Bool) : Bool :=
  match result with
  | .ok reg => check reg
  | .error _ => false

/-- A registry that passes a check is there. -/
theorem exists_of_check {result : Except SchemaError Registry} {check : Registry → Bool}
    (h : passes result check = true) : ∃ reg, result = .ok reg ∧ check reg = true := by
  cases result with
  | ok reg => exact ⟨reg, rfl, h⟩
  | error e => cases h

/-- A failure that is the expected one. -/
theorem eq_error_of_check {result : Except SchemaError Registry} {expected : SchemaError}
    (h : (match result with
      | .ok _ => false
      | .error e => decide (e = expected)) = true) : result = .error expected := by
  cases result with
  | ok reg => cases h
  | error e => rw [of_decide_eq_true h]

theorem exists_freeze_of_freezeBuilt {building : Synthesis.Synthesizing Unit} {reg : Registry}
    (h : freezeBuilt building = .ok reg) : ∃ b : Builder, b.freeze = .ok reg := by
  unfold freezeBuilt at h
  split at h
  · exact ⟨_, h⟩
  · cases h

theorem Field.readsKey_iff {field : Field} {key : String} :
    field.readsKey key = true ↔ field.isComputed = false ∧ field.source = .key key := by
  rw [readsKey, Bool.and_eq_true, Bool.not_eq_true']
  refine and_congr_right fun _ => ?_
  cases field.source <;> simp

namespace Registry

variable {reg : Registry}

theorem mem_ids_of_def? {id : TypeId} {d : TypeDef} (h : reg.def? id = some d) : id ∈ reg.ids := by
  obtain ⟨hlt, -⟩ := Array.getElem?_eq_some_iff.mp h
  exact List.mem_map.mpr ⟨id.index, List.mem_range.mpr hlt, rfl⟩

theorem mem_ids_of_shape_ne {id : TypeId} (h : reg.shape id ≠ .union []) : id ∈ reg.ids := by
  cases hdef : reg.def? id with
  | none =>
    rw [shape, hdef] at h
    exact absurd rfl h
  | some d => exact mem_ids_of_def? hdef

/-! ### Fields that are not computed -/

/-- The fields that are not computed read keys of their records, and no values that are made
from whole records. -/
def ReadsKeys (reg : Registry) : Prop :=
  ∀ {id : TypeId} {p : Product} {field : Field}, reg.shape id = .product p → field ∈ p.fields →
    field.isComputed = false → ∃ key, field.source = .key key

/-- Whether all fields that are not computed have sources that pass a check. -/
def sourcesSatisfy (reg : Registry) (check : FieldSource → Bool) : Bool :=
  reg.ids.all fun id =>
    match (reg.shape id).asProduct? with
    | some p => p.fields.all fun field => field.isComputed || check field.source
    | none => true

theorem of_sourcesSatisfy {check : FieldSource → Bool} (h : reg.sourcesSatisfy check = true)
    {id : TypeId} {p : Product} {field : Field} (hshape : reg.shape id = .product p)
    (hmem : field ∈ p.fields) (hcomp : field.isComputed = false) : check field.source = true := by
  have hid := List.all_eq_true.mp h id (mem_ids_of_shape_ne (by simp [hshape]))
  rw [hshape] at hid
  have hfield := List.all_eq_true.mp hid field hmem
  rwa [hcomp, Bool.false_or] at hfield

/-- Whether a field reads a key. -/
def isKey : FieldSource → Bool
  | .key _ => true
  | .extract _ => false

/-- Whether a field reads a key or a rest element. -/
def isKeyOrRest : FieldSource → Bool
  | .key _ | .extract (.rest _) => true
  | .extract (.custom _ _) => false

theorem readsKeys_of_sourcesSatisfy (h : reg.sourcesSatisfy isKey = true) : reg.ReadsKeys := by
  intro id p field hshape hmem hcomp
  have hkey := of_sourcesSatisfy h hshape hmem hcomp
  cases hsource : field.source with
  | key key => exact ⟨key, rfl⟩
  | extract e =>
    rw [hsource] at hkey
    cases hkey

/-! ### Types at the same source value -/

/-- The types reached from a type at the same source value. -/
inductive SamePath (reg : Registry) : TypeId → TypeId → Prop
  | refl (id : TypeId) : SamePath reg id id
  | step {id next last : TypeId} (mem : next ∈ (reg.shape id).samePath)
      (rest : SamePath reg next last) : SamePath reg id last

theorem target_mem_samePath {id : TypeId} {i : Inspect} {arm : Arm}
    (h : reg.shape id = .inspect i) (harm : arm ∈ i.arms) :
    arm.target ∈ (reg.shape id).samePath := by
  rw [h]
  exact List.mem_map_of_mem harm

/-- Whether all types reached at the same source value in so many steps satisfy a check,
and no more steps are needed. -/
def samePathSatisfy (reg : Registry) (check : TypeId → Bool) : Nat → TypeId → Bool
  | 0, _ => false
  | steps + 1, id =>
    check id && (reg.shape id).samePath.all (reg.samePathSatisfy check steps)

theorem of_samePathSatisfy {check : TypeId → Bool} {steps : Nat} {id last : TypeId}
    (h : reg.samePathSatisfy check steps id = true) (hlast : reg.SamePath id last) :
    check last = true := by
  induction hlast generalizing steps with
  | refl id =>
    cases steps with
    | zero => cases h
    | succ steps => exact (Bool.and_eq_true_iff.mp h).1
  | step mem _ ih =>
    cases steps with
    | zero => cases h
    | succ steps => exact ih (List.all_eq_true.mp (Bool.and_eq_true_iff.mp h).2 _ mem)

/-! ### Types outside of nodes -/

/-- The types that the values of a type may hold outside of nodes. -/
inductive Yields (reg : Registry) : TypeId → TypeId → Prop
  | refl (id : TypeId) : Yields reg id id
  | step {id next last : TypeId} (mem : next ∈ (reg.shape id).contents)
      (rest : Yields reg next last) : Yields reg id last

/-- Whether all types that a type yields in so many steps and that yield no further ones
satisfy a check, and no more steps are needed. -/
def leavesSatisfy (reg : Registry) (check : TypeId → Bool) : Nat → TypeId → Bool
  | 0, _ => false
  | steps + 1, id =>
    match (reg.shape id).contents with
    | [] => check id
    | next :: rest => (next :: rest).all (reg.leavesSatisfy check steps)

theorem leavesSatisfy_succ_of_mem {check : TypeId → Bool} {steps : Nat} {id next : TypeId}
    (h : reg.leavesSatisfy check (steps + 1) id = true) (mem : next ∈ (reg.shape id).contents) :
    reg.leavesSatisfy check steps next = true := by
  rw [leavesSatisfy] at h
  split at h
  · next hnil =>
    rw [hnil] at mem
    cases mem
  · next hcons =>
    rw [hcons] at mem
    exact List.all_eq_true.mp h next mem

theorem of_leavesSatisfy {check : TypeId → Bool} {steps : Nat} {id last : TypeId}
    (h : reg.leavesSatisfy check steps id = true) (hlast : reg.Yields id last)
    (hleaf : (reg.shape last).contents = []) : check last = true := by
  induction hlast generalizing steps with
  | refl id =>
    cases steps with
    | zero => cases h
    | succ steps => rwa [leavesSatisfy, hleaf] at h
  | step mem _ ih =>
    cases steps with
    | zero => cases h
    | succ steps => exact ih (leavesSatisfy_succ_of_mem h mem) hleaf

end Registry

end TypedTree
