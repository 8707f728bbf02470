/-
What set expressions compute.

An expression is put together by calls, each of which adds a term. What a field contributes under an
attribute are the sets that its value offers (`Value.Offers`). Main statements:

* `SetExpr.Step` — the calls, `SetExpr.rule` — the rule of a computed field that they make;
* `SetExpr.named_ofSteps` — the slots in the terms lead back to the fields that the steps name;
* `SetExpr.mem_evaluate_ofSteps` — a name is in the set if a step contributes it and no step takes
  it away;
* `SetExpr.difference_of_steps` — this set is what the rule gives for the values of its
  dependencies, which are the fields that the steps mention, each once, in the order of first
  mention; the order of the steps does not matter.
-/
import TypedTree.Proofs.Attribute
import TypedTree.Proofs.Mention

namespace TypedTree

/-! ### Steps -/

namespace SetExpr

/-- A call that adds a term to an expression. -/
inductive Step where
  | take (field attr : String)
  | name (field : String)
  | subtract (field attr : String)
  | exclude (names : List String)

namespace Step

/-- The expression with the term added. -/
def apply (expr : SetExpr) : Step → SetExpr
  | take field attr => expr.take field attr
  | name field => expr.name field
  | subtract field attr => expr.subtract field attr
  | exclude names => expr.exclude names

/-- The field that a step mentions. -/
def field? : Step → Option String
  | take field _ | name field | subtract field _ => some field
  | exclude _ => none

/-- A step contributes a name: one that a field offers, or the text of a field. -/
def Adds (values : String → Value) (x : String) : Step → Prop
  | take field attr => ∃ s, (values field).Offers attr s ∧ x ∈ s
  | name field => values field = .string x
  | subtract _ _ | exclude _ => False

/-- A step takes a name away: one that a field offers, or one of a list. -/
def Removes (values : String → Value) (x : String) : Step → Prop
  | subtract field attr => ∃ s, (values field).Offers attr s ∧ x ∈ s
  | exclude names => x ∈ names
  | take _ _ | name _ => False

/-- The term that a step adds. -/
def term : Step → SetTerm String
  | take field attr => .take field attr
  | name field => .name field
  | subtract field attr => .subtract field attr
  | exclude names => .exclude (.ofList names)

variable {step : Step} {values : String → Value} {x : String}

theorem apply_eq_push (expr : SetExpr) (step : Step) : step.apply expr = expr.push step.term := by
  cases step <;> rfl

theorem field?_term (step : Step) : step.term.field? = step.field? := by
  cases step <;> rfl

theorem mem_added_iff : x ∈ step.term.added values ↔ step.Adds values x := by
  cases step with
  | take field attr => exact Value.mem_namesUnder_iff
  | name field =>
    rw [term, SetTerm.added, Adds]
    split
    · next s hs => simp [hs, eq_comm]
    · next hother =>
      simp only [NameSet.not_mem_empty, false_iff]
      exact hother x
  | subtract | exclude => simp [term, SetTerm.added, Adds]

theorem mem_removed_iff : x ∈ step.term.removed values ↔ step.Removes values x := by
  cases step with
  | subtract field attr => exact Value.mem_namesUnder_iff
  | exclude names => exact NameSet.mem_ofList
  | take | name => simp [term, SetTerm.removed, Removes]

end Step

/-- The expression that steps make, one after another. -/
def ofSteps (steps : List Step) : SetExpr := steps.foldl (fun expr step => step.apply expr) {}

/-- The rule of a computed field that steps make. -/
def rule (steps : List Step) : Computed := .names (ofSteps steps)

variable {steps steps' : List Step} {values : String → Value} {x : String}

/-! ### Dependencies -/

/-- A field is taken up unless it has a slot. -/
theorem fields_apply (expr : SetExpr) (step : Step) : (step.apply expr).fields =
    step.field?.toList.foldl
      (fun seen field => if field ∈ seen then seen else seen ++ [field]) expr.fields := by
  have hfields : (expr.push step.term).fields = expr.fieldsWith step.term := rfl
  rw [Step.apply_eq_push, hfields, fieldsWith, Step.field?_term]
  cases step.field? with
  | none => rfl
  | some field => exact slotOf_snd _ _

theorem dependencies_rule (steps : List Step) :
    (rule steps).dependencies = (steps.filterMap Step.field?).foldl
      (fun seen field => if field ∈ seen then seen else seen ++ [field]) [] := by
  have hrun : ∀ (steps : List Step) (expr : SetExpr),
      (steps.foldl (fun expr step => step.apply expr) expr).fields =
        (steps.filterMap Step.field?).foldl
          (fun seen field => if field ∈ seen then seen else seen ++ [field]) expr.fields := by
    intro steps
    induction steps with
    | nil => exact fun _ => rfl
    | cons step steps ih =>
      intro expr
      rw [List.foldl_cons, ih, fields_apply, List.filterMap_cons]
      cases step.field? <;> rfl
  exact hrun steps {}

theorem mem_dependencies_rule {field : String} :
    field ∈ (rule steps).dependencies ↔ field ∈ steps.filterMap Step.field? := by
  rw [dependencies_rule, mem_foldl_distinct]
  simp

theorem byFirstMention_dependencies (steps : List Step) :
    ByFirstMention (steps.filterMap Step.field?) (rule steps).dependencies := by
  rw [dependencies_rule]
  exact byFirstMention_distinct _

/-- Steps in another order mention the same fields. -/
theorem dependencies_perm (h : steps.Perm steps') :
    (rule steps).dependencies.Perm (rule steps').dependencies := by
  refine (List.perm_ext_iff_of_nodup (byFirstMention_dependencies steps).nodup
    (byFirstMention_dependencies steps').nodup).mpr fun field => ?_
  rw [mem_dependencies_rule, mem_dependencies_rule]
  exact (h.filterMap Step.field?).mem_iff

/-! ### Evaluation -/

/-- The slots lead back to the fields that the steps name. -/
theorem named_ofSteps (steps : List Step) : (ofSteps steps).named = steps.map Step.term := by
  have hrun : ∀ (steps : List Step) (expr : SetExpr),
      (steps.foldl (fun expr step => step.apply expr) expr).named =
        expr.named ++ steps.map Step.term := by
    intro steps
    induction steps with
    | nil => simp
    | cons step steps ih =>
      intro expr
      rw [List.foldl_cons, ih, Step.apply_eq_push, named_push, List.append_assoc]
      rfl
  exact hrun steps {}

/-- For the values of its dependencies, in their order, a rule gives the set of its expression. -/
theorem evaluate_rule (steps : List Step) (values : String → Value) :
    (rule steps).evaluate ((rule steps).dependencies.map values) =
      .names ((ofSteps steps).evaluate ((ofSteps steps).fields.map values)) := rfl

/-- A name is in the set if a step contributes it and no step takes it away. -/
theorem mem_evaluate_ofSteps : x ∈ (ofSteps steps).evaluate ((ofSteps steps).fields.map values) ↔
    (∃ step ∈ steps, step.Adds values x) ∧ ∀ step ∈ steps, ¬ step.Removes values x := by
  rw [mem_evaluate, named_ofSteps]
  simp [Step.mem_added_iff, Step.mem_removed_iff]

/-- Steps in another order make a rule that gives the same set. -/
theorem evaluate_perm (h : steps.Perm steps') :
    (rule steps).evaluate ((rule steps).dependencies.map values) =
      (rule steps').evaluate ((rule steps').dependencies.map values) := by
  rw [evaluate_rule, evaluate_rule]
  refine congrArg Value.names (NameSet.ext fun x => ?_)
  rw [mem_evaluate_ofSteps, mem_evaluate_ofSteps]
  have hmem : ∀ step, step ∈ steps ↔ step ∈ steps' := fun _ => h.mem_iff
  simp only [hmem]

/-- For the values of its dependencies, a rule gives the set of the names that some step
contributes and no step takes away. The dependencies are the fields that the steps mention, each
once, in the order of first mention. In another order, the steps have the same dependencies in
another order, and give the same set. -/
theorem difference_of_steps (steps : List Step) (values : String → Value) :
    (∃ set, (rule steps).evaluate ((rule steps).dependencies.map values) = .names set ∧
      ∀ x, x ∈ set ↔
        (∃ step ∈ steps, step.Adds values x) ∧ ∀ step ∈ steps, ¬ step.Removes values x) ∧
    ((∀ field, field ∈ (rule steps).dependencies ↔ ∃ step ∈ steps, step.field? = some field) ∧
      ByFirstMention (steps.filterMap Step.field?) (rule steps).dependencies) ∧
    ∀ steps', steps.Perm steps' →
      (rule steps).dependencies.Perm (rule steps').dependencies ∧
      (rule steps).evaluate ((rule steps).dependencies.map values) =
        (rule steps').evaluate ((rule steps').dependencies.map values) := by
  refine ⟨⟨_, evaluate_rule steps values, fun _ => mem_evaluate_ofSteps⟩,
    ⟨fun field => ?_, byFirstMention_dependencies steps⟩,
    fun steps' h => ⟨dependencies_perm h, evaluate_perm h⟩⟩
  rw [mem_dependencies_rule, List.mem_filterMap]

/-- A field that is mentioned twice is one dependency. -/
example : (rule [.take "left" freeVariables, .name "id", .subtract "left" bindingNames,
    .exclude ["arguments"]]).dependencies = ["left", "id"] := by decide

end SetExpr

end TypedTree
