/-
The elements of the lists that the catalogue translates.

Main statements:

* `Catalogue.lists_keep_elements` — in what the catalogue and the schema of its grammar
  translate, the lists of every node hold the translations of the elements of their source
  arrays, in order; only a rest element at the end may be missing, and then it is translated
  in the fields that are there for it;
* `Catalogue.rest_element_lost` — where no field is there for it, it is lost.

Design notes: the catalogue has fields for rest elements in functions and patterns. The
schema of the grammar has none, so there the rest parameter of a function is lost.
-/
import TypedTree.Proofs.Catalogue.Conformance

namespace TypedTree

theorem keepsAllItems_of_freezeBuilt (building : Synthesis.Synthesizing Unit)
    (h : ∃ reg, freezeBuilt building = .ok reg ∧ reg.populatesWithin 4 = true ∧
      reg.sparesListsWithin 4 = true) :
    ∃ reg, freezeBuilt building = .ok reg ∧ reg.KeepsAllItems := by
  obtain ⟨reg, hreg, hpop, hspare⟩ := h
  obtain ⟨b, hb⟩ := exists_freeze_of_freezeBuilt hreg
  exact ⟨reg, hreg, Registry.keepsAllItems_of_checks hb hpop hspare⟩

namespace Catalogue

theorem full_keepsAllItems : ∃ reg, full = .ok reg ∧ reg.KeepsAllItems := by
  obtain ⟨reg, hreg, hpop, hspare, -⟩ := full_checks
  exact keepsAllItems_of_freezeBuilt build ⟨reg, hreg, hpop, hspare⟩

theorem synthesized_keepsAllItems : ∃ reg, synthesized = .ok reg ∧ reg.KeepsAllItems :=
  keepsAllItems_of_freezeBuilt (Grammar.estree.synthesize []) synthesized_checks

/-- Every node that the catalogue or the schema of its grammar translates is built from a
record of the source, and its lists keep their elements, apart from a rest element at the
end. -/
theorem lists_keep_elements {reg : Registry} (hreg : full = .ok reg ∨ synthesized = .ok reg)
    {limit : Nat} {id : TypeId} {source : Json} {v : Value}
    (hv : reg.translate limit id source = .ok v) {n : Node} (hn : n.OccursIn v) :
    ∃ s record p, reg.Reaches limit ⟨id, some source, .root, none, 0⟩ s ∧
      reg.Builds limit s record p n ∧ reg.KeepsItems limit s record p n := by
  rcases hreg with hreg | hreg
  · obtain ⟨reg', hreg', hkeeps⟩ := full_keepsAllItems
    cases Except.ok.inj (hreg.symm.trans hreg')
    exact hkeeps limit id source v hv n hn
  · obtain ⟨reg', hreg', hkeeps⟩ := synthesized_keepsAllItems
    cases Except.ok.inj (hreg.symm.trans hreg')
    exact hkeeps limit id source v hv n hn

/-! ### A rest parameter -/

/-- An identifier in a source. -/
def identifierSource (name : String) : Json :=
  .obj [("type", .str "Identifier"), ("name", .str name)]

/-- The parameters of a function with a rest parameter. -/
def parameterSources : List Json :=
  [identifierSource "a", .obj [("type", .str "RestElement"), ("argument", identifierSource "r")]]

/-- A function with a rest parameter and an empty body. -/
def functionSource : Json.Record := [
  ("type", .str "FunctionExpression"),
  ("params", .arr parameterSources),
  ("body", .obj [("type", .str "BlockStatement"), ("body", .arr [])])]

/-- Whether a product has a list for a key and no field for the rest element of that key. -/
def hasNoRestField (reg : Registry) (key : String) (p : Product) : Bool :=
  (p.fields.any fun field => field.readsKey key && field.name == key &&
    match reg.shape field.type with
    | .array _ => true
    | _ => false) &&
  p.fields.all fun field =>
    match field.source with
    | .extract (.rest other) => other != key
    | _ => true

/-- Whether a value is a node with so many items under a field. -/
def hasItems (field : String) (count : Nat) (v : Value) : Bool :=
  match v.asNode? with
  | some n =>
    match n.get? field with
    | some (.list values) => values.length == count
    | _ => false
  | none => false

/-- Whether a schema has no field for the rest parameter of a function, and translates the
function with one parameter. -/
def dropsRestParameter (reg : Registry) : Bool :=
  match (reg.shape ⟨29⟩).asProduct? with
  | some p => hasNoRestField reg "params" p &&
      reg.translatesWithin 256 5 ⟨29⟩ (.obj functionSource) (hasItems "params" 1)
  | none => false

/-- The schema of the grammar translates the function, with one parameter. -/
theorem exists_functionSource : ∃ reg, synthesized = .ok reg ∧ ∃ (id : TypeId) (p : Product)
    (n : Node) (values : List Value), reg.shape id = .product p ∧
      hasNoRestField reg "params" p = true ∧
      reg.translate 256 id (.obj functionSource) = .ok n.toValue ∧
      n.get? "params" = some (.list values) ∧ values.length = 1 := by
  obtain ⟨reg, hreg, hcheck⟩ : ∃ reg, synthesized = .ok reg ∧ dropsRestParameter reg = true :=
    exists_of_check (by decide +kernel)
  unfold dropsRestParameter at hcheck
  split at hcheck
  · next p hproduct =>
    obtain ⟨hrest, htranslates⟩ := Bool.and_eq_true_iff.mp hcheck
    obtain ⟨v, hv, hitems⟩ := Registry.exists_of_translatesWithin htranslates
    have hshape : reg.shape ⟨29⟩ = .product p := by
      cases hid : reg.shape ⟨29⟩ <;> simp only [hid, Shape.asProduct?, reduceCtorEq] at hproduct
      cases hproduct
      rfl
    unfold hasItems at hitems
    split at hitems
    · next n hn =>
      split at hitems
      · next values hvalues =>
        rw [Value.eq_of_asNode?_eq_some hn] at hv
        exact ⟨reg, hreg, ⟨29⟩, p, n, values, hshape, hrest, hv, hvalues, by simpa using hitems⟩
      · cases hitems
    · cases hitems
  · cases hcheck

/-- A list for a key and no field for the rest element of that key. -/
theorem exists_of_hasNoRestField {reg : Registry} {key : String} {p : Product}
    (h : hasNoRestField reg key p = true) :
    (∃ field ∈ p.fields, field.isComputed = false ∧ field.source = .key key ∧ field.name = key ∧
      ∃ item, reg.ListOf field.type item) ∧
    ∀ field ∈ p.fields, field.source ≠ .extract (.rest key) := by
  obtain ⟨hlist, hrest⟩ := Bool.and_eq_true_iff.mp h
  constructor
  · obtain ⟨field, hmem, hfield⟩ := List.any_eq_true.mp hlist
    simp only [Bool.and_eq_true] at hfield
    obtain ⟨⟨hreads, hname⟩, harray⟩ := hfield
    obtain ⟨hcomp, hkey⟩ := Field.readsKey_iff.mp hreads
    refine ⟨field, hmem, hcomp, hkey, by simpa using hname, ?_⟩
    split at harray
    · next item hshape => exact ⟨item, .array hshape⟩
    · cases harray
  · intro field hmem hsource
    have hfield := List.all_eq_true.mp hrest field hmem
    rw [hsource] at hfield
    simp at hfield

/-- The function is translated, and its list of parameters keeps its elements. -/
theorem lists_keep_elements_function : ∃ reg, synthesized = .ok reg ∧ ∃ (id : TypeId) (n : Node),
    reg.translate 256 id (.obj functionSource) = .ok n.toValue ∧ n.OccursIn n.toValue ∧
    ∃ s record p, reg.Builds 256 s record p n ∧ reg.KeepsItems 256 s record p n := by
  obtain ⟨reg, hreg, id, p, n, values, -, -, hn, -⟩ := exists_functionSource
  obtain ⟨s, record, p, -, hbuilds, hitems⟩ := lists_keep_elements (.inr hreg) hn (.here n)
  exact ⟨reg, hreg, id, n, hn, .here n, s, record, p, hbuilds, hitems⟩

/-- A list may be shorter than its source array although the product has no field for the
rest element. -/
theorem rest_element_lost : ∃ reg, synthesized = .ok reg ∧
    ¬ ∀ (limit : Nat) (id : TypeId) (source : Json) (v : Value) (n : Node) (s : Request)
      (record : Json.Record) (p : Product) (field : Field) (key : String) (item : TypeId)
      (items : List Json), reg.translate limit id source = .ok v → n.OccursIn v →
      reg.Reaches limit ⟨id, some source, .root, none, 0⟩ s → reg.Builds limit s record p n →
      field ∈ p.fields → field.isComputed = false → field.source = .key key →
      reg.ListOf field.type item → record.get? key = some (.arr items) →
      (∀ lifted ∈ p.fields, lifted.source ≠ .extract (.rest key)) →
      ∃ values, n.get? field.name = some (.list values) ∧ values.length = items.length := by
  obtain ⟨reg, hreg, id, p, n, values, hshape, hrest, hn, hvalues, hone⟩ := exists_functionSource
  refine ⟨reg, hreg, fun h => ?_⟩
  obtain ⟨b, hb⟩ := @exists_freeze_of_freezeBuilt (Grammar.estree.synthesize []) reg hreg
  obtain ⟨⟨field, hmem, hcomp, hkey, hname, item, hlist⟩, hnone⟩ := exists_of_hasNoRestField hrest
  have hanswer : reg.answer 256 ⟨id, some (.obj functionSource), .root, none, 0⟩ =
      .ok n.toValue := by
    unfold Registry.translate at hn
    split at hn
    · exact hn
    · cases hn
  have hbuilds := Registry.builds_of_product (Builder.planned_of_freeze hb) hshape rfl hanswer
  obtain ⟨values', hvalues', hlength⟩ := h 256 id _ _ n _ functionSource p field "params" item
    parameterSources hn (.here n) .refl hbuilds hmem hcomp hkey hlist rfl hnone
  rw [hname, hvalues] at hvalues'
  cases hvalues'
  rw [hone] at hlength
  cases hlength

end Catalogue

end TypedTree
