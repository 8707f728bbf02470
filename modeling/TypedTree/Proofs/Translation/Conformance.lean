/-
Conformance of translated nodes.

A node conforms to its type if it has the fields of the type, in their order, and every
field holds an instance of its type. Main statements:

* `Registry.Fits` — an instance of a type in which every node conforms;
* `Registry.WellPopulated` — defaults fit, and computed fields make fitting values of
  fitting ones;
* `Registry.fits_of_translate` — what is translated with a well-populated registry fits.
-/
import TypedTree.Proofs.Translation.Typing

namespace TypedTree

namespace Registry

variable {reg : Registry} {limit : Nat}

/-- A node has the name and the fields of a product, and every field holds an instance of
its type. -/
def Conforms (reg : Registry) (n : Node) : Prop :=
  ∃ p, reg.shape n.id = .product p ∧ n.typeName = reg.name n.id ∧
    List.Forall₂
      (fun field entry => entry.1 = field.name ∧ reg.isInstance field.type entry.2 = true)
      p.fields n.fields

/-- An instance of a type in which every node conforms. -/
def Fits (reg : Registry) (id : TypeId) (v : Value) : Prop :=
  reg.isInstance id v = true ∧ ∀ n : Node, n.OccursIn v → reg.Conforms n

/-- Defaults fit, and computed fields make fitting values of fitting ones. -/
def WellPopulated (reg : Registry) : Prop := reg.Populated reg.Fits

theorem isInstance_of_mem_samePath {id next : TypeId} {v : Value}
    (hnext : next ∈ (reg.shape id).samePath) (hv : reg.isInstance next v = true) :
    reg.isInstance id v = true := by
  rw [isInstance_eq]
  cases hshape : reg.shape id with
  | nullable inner =>
    rw [hshape, Shape.samePath, List.mem_singleton] at hnext
    subst hnext
    simp [hv]
  | union alternatives =>
    rw [hshape] at hnext
    exact List.any_eq_true.mpr ⟨next, hnext, hv⟩
  | inspect i =>
    rw [hshape] at hnext
    obtain ⟨arm, harm, rfl⟩ := List.mem_map.mp hnext
    exact List.any_eq_true.mpr ⟨arm, harm, hv⟩
  | primitive | array | nameSet | product => simp [hshape, Shape.samePath] at hnext

theorem fits_structural : reg.Structural reg.Fits where
  plain := by
    intro id kind v hshape hkind hv
    refine ⟨?_, fun n hn => absurd hn hv.not_occursIn⟩
    rw [isInstance_eq, hshape]
    exact hkind
  names := by
    intro id set hshape
    refine ⟨?_, fun n hn => absurd hn Value.not_occursIn_names⟩
    rw [isInstance_eq, hshape]
    rfl
  list := by
    intro id item vs hshape hvs
    constructor
    · rw [isInstance_eq, hshape]
      exact List.all_eq_true.mpr fun v hv => (hvs v hv).1
    · intro n hn
      obtain ⟨v, hv, hn⟩ := Node.occursIn_list_iff.mp hn
      exact (hvs v hv).2 n hn
  null := by
    intro id inner hshape
    refine ⟨?_, fun n hn => absurd hn Value.Plain.null.not_occursIn⟩
    rw [isInstance_eq, hshape]
    rfl
  step hnext hv := ⟨isInstance_of_mem_samePath hnext hv.1, hv.2⟩

theorem fits_node {id : TypeId} {p : Product} {entries : List (String × Value)}
    {metadata : Option Metadata} (hshape : reg.shape id = .product p)
    (hentries : List.Forall₂ (fun field entry => entry.1 = field.name ∧
      reg.Fits field.type entry.2) p.fields entries) :
    reg.Fits id (.node id (reg.name id) entries metadata) := by
  constructor
  · rw [isInstance_eq, hshape]
    simp [Value.asNode?]
  · intro n hn
    rcases (Node.occursIn_toValue_iff (m := ⟨id, reg.name id, entries, metadata⟩)).mp hn with
      rfl | ⟨name, v, hmem, hn⟩
    · exact ⟨p, hshape, rfl, hentries.imp fun field entry h => ⟨h.1, h.2.1⟩⟩
    · obtain ⟨field, -, -, hfits⟩ := exists_of_forall₂_of_mem_right hentries hmem
      exact hfits.2 n hn

/-- In a well-populated registry, to fit is closed under translation. -/
theorem WellPopulated.typing (h : reg.WellPopulated) : reg.Typing reg.Fits where
  toStructural := fits_structural
  toPopulated := h
  handed _ _ _ _ _ hv hinst := ⟨hinst, hv.2⟩
  node hshape hentries _ := fits_node hshape hentries

/-- What is translated with a well-populated registry fits. -/
theorem fits_of_translate {b : Builder} (hb : b.freeze = .ok reg) (h : reg.WellPopulated)
    {id : TypeId} {source : Json} {v : Value} (hv : reg.translate limit id source = .ok v) :
    reg.Fits id v :=
  h.typing.translate (Builder.planned_of_freeze hb) hv

end Registry

end TypedTree
