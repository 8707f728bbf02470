/-
The order of alternatives in the catalogue.

Main statements:

* `Catalogue.roots` — the types from which sources are read;
* `Catalogue.order_irrelevant` — the unions that they use tell records apart, so their alternatives
  may stand in any order.

Design notes: some unions of the grammar that no root uses do not tell records apart, since the
catalogue splits identifiers by their position. They are left out of the check, but not out of the
arrangements: a type that uses none of them does not depend on their order either.
-/
import TypedTree.Proofs.Schema.Check
import TypedTree.Proofs.Translation.Discrimination

namespace TypedTree

namespace Catalogue

/-- The types from which sources are read. -/
def roots : List String :=
  ["Program", "Expression", "Pattern", "Statement", "AssignmentTarget", "ObjectMember"]

/-- Whether the roots are there and the unions that they use tell records apart, as far as so many
steps tell. -/
def rootsDiscriminate (steps : Nat) (reg : Registry) : Bool :=
  let ids := Graph.reach (fun id => (reg.shape id).parts) reg.size (roots.filterMap reg.find?)
  reg.unionsDiscriminate steps ids && roots.all fun name =>
    match reg.find? name with
    | some root => root ∈ ids
    | none => false

/-- In the catalogue, a record that a product takes at the place of a union that a root uses, is
taken by exactly one product or inspect shape there. So the result of a translation as a root is
the same, value or failure, in whatever order the alternatives of unions stand. -/
theorem order_irrelevant : ∃ reg, full = .ok reg ∧ ∀ name ∈ roots,
    ∃ root, reg.find? name = some root ∧
      (∀ id alternatives, reg.Uses root id → reg.shape id = .union alternatives →
        ∀ record, reg.Reads id record → ∃! u, reg.TakenBy id record u) ∧
      ∀ (a : Arrangement) (limit : Nat) (source : Json),
        (reg.rearrange a).translate limit root source = reg.translate limit root source := by
  obtain ⟨reg, hreg, hcheck⟩ : ∃ reg, full = .ok reg ∧ rootsDiscriminate 6 reg = true :=
    exists_of_check (by decide +kernel)
  obtain ⟨hunions, hroots⟩ := Bool.and_eq_true_iff.mp hcheck
  refine ⟨reg, hreg, fun name hname => ?_⟩
  have hroot := List.all_eq_true.mp hroots name hname
  split at hroot
  · next root hfind =>
    have hdiscriminates : ∀ id alternatives, reg.Uses root id →
        reg.shape id = .union alternatives → reg.Discriminates id :=
      fun id alternatives huses hshape => Registry.discriminates_of_unionsDiscriminate hunions
        (of_decide_eq_true hroot) huses hshape
    refine ⟨root, hfind, ?_, ?_⟩
    · intro id alternatives huses hshape record hreads
      exact (hdiscriminates id alternatives huses hshape).existsUnique_takenBy hreads
    · intro a limit source
      refine (reg.rearranges_rearrange a).translate_eq ?_ source
      intro id alternatives huses hshape
      exact (hdiscriminates id alternatives huses hshape).decisive hshape
  · cases hroot

end Catalogue

end TypedTree
