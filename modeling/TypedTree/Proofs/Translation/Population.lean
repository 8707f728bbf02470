/-
Values of fields that are not translated.

Main statements:

* `Registry.populatesWithin` — a check of all defaults and computed fields of a registry
  that can be run;
* `Registry.Structural.populated` — what the check promises, for every relation between
  types and values that goes by structure.

Design notes: the check accepts only values without nodes, which is all that the defaults
of the catalogue are.
-/
import TypedTree.Proofs.Translation.Typing

namespace TypedTree

/-- Whether a value has no parts. -/
def Value.isPlain : Value → Bool
  | null | bool _ | number _ | string _ | any _ => true
  | list _ | names _ | node _ _ _ _ => false

theorem Value.plain_of_isPlain {v : Value} (h : v.isPlain = true) : v.Plain := by
  cases v with
  | null => exact .null
  | bool b => exact .bool b
  | number n => exact .number n
  | string s => exact .string s
  | any source => exact .any source
  | list | names | node => cases h

namespace Registry

variable {reg : Registry} {T : TypeId → Value → Prop}

/-- Whether a value without nodes fits a type, as far as so many rounds tell. -/
def fitsWithin (reg : Registry) : Nat → TypeId → Value → Bool
  | 0, _, _ => false
  | rounds + 1, id, v =>
    match reg.shape id with
    | .primitive kind => kind.holds v && v.isPlain
    | .nameSet => v.asNames?.isSome
    | .array item =>
      match v with
      | .list items => items.all (reg.fitsWithin rounds item)
      | _ => false
    | .nullable inner => v.isNull || reg.fitsWithin rounds inner v
    | .union alternatives => alternatives.any fun a => reg.fitsWithin rounds a v
    | .product _ | .inspect _ => false

theorem Structural.of_fitsWithin (hT : reg.Structural T) : ∀ {rounds : Nat} {id : TypeId}
    {v : Value}, reg.fitsWithin rounds id v = true → T id v := by
  -- By induction on the bound. Without a round left nothing is found to fit.
  intro rounds
  induction rounds with
  | zero =>
    intro id v h
    cases h
  | succ rounds ih =>
    intro id v h
    rw [fitsWithin] at h
    cases hshape : reg.shape id with
    | primitive kind =>
      rw [hshape] at h
      obtain ⟨hkind, hplain⟩ := Bool.and_eq_true_iff.mp h
      exact hT.plain hshape hkind (Value.plain_of_isPlain hplain)
    | nameSet =>
      rw [hshape] at h
      cases v <;> simp only [Value.asNames?, Option.isSome, Bool.false_eq_true] at h
      exact hT.names hshape
    | array item =>
      rw [hshape] at h
      cases v <;> simp only [Bool.false_eq_true] at h
      exact hT.list hshape fun v hv => ih (List.all_eq_true.mp h v hv)
    | nullable inner =>
      rw [hshape] at h
      rcases Bool.or_eq_true_iff.mp h with hnull | hinner
      · cases v <;> simp only [Value.isNull, Bool.false_eq_true] at hnull
        exact hT.null hshape
      · exact hT.step (by simp [hshape, Shape.samePath]) (ih hinner)
    | union alternatives =>
      rw [hshape] at h
      obtain ⟨a, ha, hv⟩ := List.any_eq_true.mp h
      exact hT.step (by simpa [hshape, Shape.samePath] using ha) (ih hv)
    | product | inspect =>
      rw [hshape] at h
      cases h

/-- Whether a field gets a fitting value where it is not translated. -/
def populatesField (reg : Registry) (rounds : Nat) (field : Field) : Bool :=
  match field.population with
  | .required => true
  | .default v | .computed (.always v) => reg.fitsWithin rounds field.type v
  | .computed (.names _) =>
    match reg.shape field.type with
    | .nameSet => true
    | _ => false
  | .computed (.custom _ _) => false

/-- Whether all fields of a registry get fitting values where they are not translated. -/
def populatesWithin (reg : Registry) (rounds : Nat) : Bool :=
  reg.ids.all fun id =>
    match (reg.shape id).asProduct? with
    | some p => p.fields.all (reg.populatesField rounds)
    | none => true

theorem populatesField_of_populatesWithin {rounds : Nat} (h : reg.populatesWithin rounds = true)
    {id : TypeId} {p : Product} {field : Field} (hshape : reg.shape id = .product p)
    (hmem : field ∈ p.fields) : reg.populatesField rounds field = true := by
  have hid := List.all_eq_true.mp h id (mem_ids_of_shape_ne (by simp [hshape]))
  rw [hshape] at hid
  exact List.all_eq_true.mp hid field hmem

/-- The defaults and computed fields of a registry that passes the check give values that
are related to the types of their fields. -/
theorem Structural.populated (hT : reg.Structural T) {rounds : Nat}
    (h : reg.populatesWithin rounds = true) : reg.Populated T := by
  constructor
  · intro id p field v hshape hmem hv
    have hfield := populatesField_of_populatesWithin h hshape hmem
    rw [populatesField, hv] at hfield
    exact hT.of_fitsWithin hfield
  -- A rule that passes gives one plain value, or a set of names, whatever its arguments.
  · intro id p hshape field hmem rule hrule args _
    have hfield := populatesField_of_populatesWithin h hshape hmem
    cases hpop : field.population with
    | required | default => simp [Field.rule?, hpop] at hrule
    | computed rule' =>
      rw [Field.rule?, hpop] at hrule
      cases hrule
      rw [populatesField, hpop] at hfield
      cases rule with
      | always v => exact hT.of_fitsWithin hfield
      | names expr =>
        dsimp only at hfield
        split at hfield
        · next hset => exact hT.names hset
        · cases hfield
      | custom fields compute => cases hfield

end Registry

end TypedTree
