/-
Conformance of what the catalogue translates.

Main statements:

* `Catalogue.full_checks`, `Catalogue.synthesized_checks` — the catalogue and the schema of
  its grammar pass the checks that can be run;
* `Catalogue.full_wellPopulated`, `Catalogue.synthesized_wellPopulated` — their defaults and
  computed fields fit;
* `Registry.translate_conforms` — every node of a translated value conforms to its type,
  for a well-populated registry, and without condition for the catalogue and for the
  schema of its grammar.
-/
import TypedTree.Proofs.Translation.Bounded
import TypedTree.Proofs.Translation.Conformance
import TypedTree.Proofs.Translation.Elements

namespace TypedTree

/-! ### The catalogue -/

namespace Catalogue

/-- The catalogue passes the checks of its defaults, its computed fields and its lists, and of
where its fields read. -/
theorem full_checks : ∃ reg, full = .ok reg ∧ reg.populatesWithin 4 = true ∧
    reg.sparesListsWithin 4 = true ∧ reg.sourcesSatisfy Registry.isKeyOrRest = true := by
  obtain ⟨reg, hreg, hcheck⟩ : ∃ reg, full = .ok reg ∧ (reg.populatesWithin 4 &&
      (reg.sparesListsWithin 4 && reg.sourcesSatisfy Registry.isKeyOrRest)) = true :=
    exists_of_check (by decide +kernel)
  obtain ⟨hpop, hrest⟩ := Bool.and_eq_true_iff.mp hcheck
  exact ⟨reg, hreg, hpop, Bool.and_eq_true_iff.mp hrest⟩

/-- The schema of its grammar passes those of its defaults, its computed fields and its lists. -/
theorem synthesized_checks : ∃ reg, synthesized = .ok reg ∧ reg.populatesWithin 4 = true ∧
    reg.sparesListsWithin 4 = true := by
  obtain ⟨reg, hreg, hcheck⟩ : ∃ reg, synthesized = .ok reg ∧
      (reg.populatesWithin 4 && reg.sparesListsWithin 4) = true :=
    exists_of_check (by decide +kernel)
  exact ⟨reg, hreg, Bool.and_eq_true_iff.mp hcheck⟩

/-- The catalogue is well populated. -/
theorem full_wellPopulated : ∃ reg, full = .ok reg ∧ reg.WellPopulated := by
  obtain ⟨reg, hreg, hpop, -⟩ := full_checks
  exact ⟨reg, hreg, Registry.fits_structural.populated hpop⟩

/-- So is the schema of its grammar. -/
theorem synthesized_wellPopulated : ∃ reg, synthesized = .ok reg ∧ reg.WellPopulated := by
  obtain ⟨reg, hreg, hpop, -⟩ := synthesized_checks
  exact ⟨reg, hreg, Registry.fits_structural.populated hpop⟩

end Catalogue

theorem fits_of_freezeBuilt (building : Synthesis.Synthesizing Unit)
    (h : ∃ reg, freezeBuilt building = .ok reg ∧ reg.WellPopulated) :
    ∃ reg, freezeBuilt building = .ok reg ∧
      ∀ (limit : Nat) (id : TypeId) (source : Json) (v : Value),
        reg.translate limit id source = .ok v → reg.Fits id v := by
  obtain ⟨reg, hreg, hpop⟩ := h
  obtain ⟨b, hb⟩ := exists_freeze_of_freezeBuilt hreg
  exact ⟨reg, hreg, fun limit id source v hv => Registry.fits_of_translate hb hpop hv⟩

/-- What a well-populated registry translates is an instance of the type asked for, and
every node inside conforms to its own type. For the catalogue and for the schema of its
grammar this holds without condition. -/
theorem Registry.translate_conforms :
    (∀ (b : Builder) (reg : Registry), b.freeze = .ok reg → reg.WellPopulated →
      ∀ (limit : Nat) (id : TypeId) (source : Json) (v : Value),
        reg.translate limit id source = .ok v → reg.Fits id v) ∧
    (∃ reg, Catalogue.full = .ok reg ∧
      ∀ (limit : Nat) (id : TypeId) (source : Json) (v : Value),
        reg.translate limit id source = .ok v → reg.Fits id v) ∧
    ∃ reg, Catalogue.synthesized = .ok reg ∧
      ∀ (limit : Nat) (id : TypeId) (source : Json) (v : Value),
        reg.translate limit id source = .ok v → reg.Fits id v :=
  ⟨fun _ _ hb hpop _ _ _ _ hv => fits_of_translate hb hpop hv,
    fits_of_freezeBuilt Catalogue.build Catalogue.full_wellPopulated,
    fits_of_freezeBuilt (Grammar.estree.synthesize []) Catalogue.synthesized_wellPopulated⟩

/-! ### A leaf with a default and a computed field -/

/-- A leaf has a name, a note that is `null` by default, and the set of its name. -/
def leafProductWithNames : Product where
  source := { tag := "Leaf" }
  fields := [.required "name" ⟨0⟩, .withDefault "note" ⟨1⟩ .null,
    .computed "names" ⟨2⟩ (.names (SetExpr.name {} "name"))]

/-- The schema of such leaves. -/
def leavesWithNames : Builder := { declarations := [
  { name := "string", body := some (.primitive .string) },
  { name := "Nullable<string>", body := some (.nullable ⟨0⟩) },
  { name := "StringSet", body := some .nameSet },
  { name := "Leaf", body := some (.product leafProductWithNames) }] }

/-- A leaf of the source, which has a name only. -/
def leafSource : Json := .obj [("type", .str "Leaf"), ("name", .str "x")]

/-- The node of that leaf. -/
def leafWithNames : Node where
  id := ⟨3⟩
  typeName := "Leaf"
  fields := [("name", .string "x"), ("note", .null), ("names", .names (.ofList ["x"]))]
  metadata := none

/-- Whether a value is that node. -/
def isLeafWithNames : Value → Bool
  | .node id typeName [(first, .string x), (second, .null), (third, .names set)] none =>
    (id, typeName, [first, second, third], x, set) ==
      ((⟨3⟩ : TypeId), "Leaf", ["name", "note", "names"], "x", NameSet.ofList ["x"])
  | _ => false

theorem eq_of_isLeafWithNames {v : Value} (h : isLeafWithNames v = true) :
    v = leafWithNames.toValue := by
  unfold isLeafWithNames at h
  split at h
  · cases eq_of_beq h
    rfl
  · cases h

/-- A leaf with a name only becomes a node with all three fields, each an instance of its type. -/
theorem Registry.translate_conforms_leaf : ∃ reg, leavesWithNames.freeze = .ok reg ∧
    reg.WellPopulated ∧ reg.find? "Leaf" = some ⟨3⟩ ∧
    reg.shape ⟨3⟩ = .product leafProductWithNames ∧
    reg.translate 1 ⟨3⟩ leafSource = .ok leafWithNames.toValue ∧
    reg.Fits ⟨3⟩ leafWithNames.toValue := by
  obtain ⟨reg, hreg, hcheck⟩ : ∃ reg, leavesWithNames.freeze = .ok reg ∧
      (reg.populatesWithin 2 && reg.find? "Leaf" == some ⟨3⟩ &&
        reg.translatesWithin 1 3 ⟨3⟩ leafSource isLeafWithNames) = true :=
    exists_of_check (by decide +kernel)
  obtain ⟨⟨hpop, hname⟩, htranslates⟩ := by simpa only [Bool.and_eq_true] using hcheck
  obtain ⟨v, hv, hleaf⟩ := exists_of_translatesWithin htranslates
  obtain rfl := eq_of_isLeafWithNames hleaf
  have hpop := fits_structural.populated hpop
  have hshape : reg.shape ⟨3⟩ = .product leafProductWithNames :=
    (Builder.shape_of_freeze hreg ⟨3⟩).trans rfl
  exact ⟨reg, hreg, hpop, eq_of_beq hname, hshape, hv,
    translate_conforms.1 leavesWithNames reg hreg hpop 1 ⟨3⟩ leafSource _ hv⟩

end TypedTree
