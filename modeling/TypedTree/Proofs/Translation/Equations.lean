/-
The equations of computed fields in translated values.

A computed field holds what its rule makes of the values that the same node holds for the fields
it names. Main statements:

* `Registry.equations_hold` — so it is in every node that a translation builds, whatever the
  order of the fields; every call of a rule gets one argument for each field it names, and no
  field is left without a value;
* `Registry.equation_broken_in_default`, `Registry.equation_broken_by_rule` — not so in nodes that
  are brought in, by a default or by a rule: they are taken as they are.

Design notes: the equations speak of the finished node. That a rule sees the same values when
it is called is a statement of its own, `Product.Evaluates`.
-/
import TypedTree.Proofs.Attribute
import TypedTree.Proofs.Schema.Check
import TypedTree.Proofs.Translation.Bounded
import TypedTree.Proofs.Translation.Origin

namespace TypedTree

/-- Every term of a set expression finds the value of its field among the arguments. -/
def SetExpr.Finds (expr : SetExpr) (args : List Value) (entries : List (String × Value)) : Prop :=
  ∀ term ∈ expr.terms, ∀ slot, term.field? = some slot →
    ∃ field v, expr.fields[slot]? = some field ∧ args[slot]? = some v ∧
      entries.lookup field = some v

theorem SetExpr.finds_of_forall₂ {expr : SetExpr} {args : List Value}
    {entries : List (String × Value)} (h : List.Forall₂
      (fun dep arg => entries.lookup dep = some arg) expr.fields args) :
    expr.Finds args entries := by
  intro term hterm slot hslot
  have hlt : slot < expr.fields.length := expr.slotsIn term hterm slot hslot
  have hfield := List.getElem?_eq_getElem hlt
  have harg := List.getElem?_eq_getElem (h.length_eq ▸ hlt)
  exact ⟨_, _, hfield, harg, forall₂_getElem? h hfield harg⟩

namespace Registry

variable {reg : Registry} {limit : Nat}

/-- In every node that a translation builds itself, computed fields hold what their rules make of
the values of the node, and were made of just these values. -/
theorem equations_hold {b : Builder} (hb : b.freeze = .ok reg) {id : TypeId} {source : Json}
    {v : Value} (hv : reg.translate limit id source = .ok v) {n : Node} (hn : n.OccursIn v)
    (hown : ¬ reg.BroughtIn limit (.whole id source) n) :
    ∃ s record p slots, reg.Reaches limit (.whole id source) s ∧ reg.Builds limit s record p n ∧
      List.Forall₂ (reg.Supplies limit s record) p.fields slots ∧
      n.fields = p.complete (reg.plan n.id) slots ∧ p.Satisfied n.fields ∧
      p.Evaluates (reg.plan n.id) slots ∧
      ∀ before step after field expr, reg.plan n.id = before ++ step :: after →
        p.fields[step.field]? = some field → field.rule? = some (.names expr) →
        expr.Finds (Product.arguments (before.foldl p.computeStep slots) step) n.fields := by
  have hplan : reg.Planned := Builder.planned_of_freeze hb
  obtain ⟨s, record, p, hrun, hbuilds⟩ :=
    (builtFrom_or_broughtIn hplan rfl (answer_of_translate_eq_ok hv) hn).resolve_right hown
  obtain ⟨slots, hslots, hsupplies⟩ := hbuilds.exists_slots
  have hevaluates : p.Evaluates (reg.plan s.id) slots :=
    Product.evaluates_of_plan (hplan hbuilds.shape) (Supplies.supplied hsupplies)
  obtain ⟨-, hsatisfied, -⟩ := Product.complete_spec (hplan hbuilds.shape)
    ((Supplies.supplied hsupplies).mono fun _ _ _ => trivial) (fun _ _ _ _ _ _ => trivial)
  rw [← hbuilds.id] at hslots hevaluates hsatisfied
  refine ⟨s, record, p, slots, hrun, hbuilds, hsupplies, hslots, hslots ▸ hsatisfied,
    hevaluates, ?_⟩
  intro before step after field expr hsplit hfield hrule
  refine SetExpr.finds_of_forall₂ ?_
  rw [hslots]
  exact hevaluates.call hsplit hfield hrule

/-! ### A rule that reads a field twice -/

/-- A product whose fields are declared before those they depend on, one of them twice. -/
def doubled : Product where
  source := { tag := "T" }
  fields := [
    .computed "both" ⟨2⟩ (.custom ["names", "names", "name"] .list),
    .computed "names" ⟨1⟩ (.names (SetExpr.name {} "name")),
    .required "name" ⟨0⟩]

def doubling : Builder := { declarations := [
  { name := "string", body := some (.primitive .string) },
  { name := "StringSet", body := some .nameSet },
  { name := "any", body := some (.primitive .any) },
  { name := "Doubled", body := some (.product doubled) }] }

theorem eq_doubled {id : TypeId} {p : Product}
    (h : (doubling.body? id).getD (.union []) = .product p) : p = doubled := by
  obtain ⟨i⟩ := id
  match i with
  | 0 | 1 | 2 => cases h
  | 3 =>
    cases h
    rfl
  | _ + 4 => cases h

theorem mem_doubled {field : Field} (h : field ∈ doubled.fields) :
    field = .computed "both" ⟨2⟩ (.custom ["names", "names", "name"] .list) ∨
      field = .computed "names" ⟨1⟩ (.names (SetExpr.name {} "name")) ∨
      field = .required "name" ⟨0⟩ := by
  simpa [doubled] using h

section

variable (hshape : ∀ id, reg.shape id = (doubling.body? id).getD (.union []))
include hshape

theorem not_broughtIn_doubling (hplan : reg.Planned) {root : Request} {n : Node} :
    ¬ reg.BroughtIn limit root n := by
  refine not_broughtIn hplan ?_ ?_
  · intro id p field v hp hmem hd
    obtain rfl : p = doubled := eq_doubled (hshape id ▸ hp)
    rcases mem_doubled hmem with rfl | rfl | rfl <;> cases hd
  · intro id p field rule hp hmem hrule
    obtain rfl : p = doubled := eq_doubled (hshape id ▸ hp)
    rcases mem_doubled hmem with rfl | rfl | rfl <;> cases hrule
    · exact Computed.passesNodes_list _
    · exact Computed.passesNodes_names _

/-- The record that gives both sets one name. -/
def namedX : Json.Record := [("type", .str "T"), ("name", .str "x")]

theorem answerField_doubling : reg.answerField 1 (.whole ⟨3⟩ (.obj namedX)) namedX
    (.required "name" ⟨0⟩) = .ok (.string "x") := by
  rw [answerField_of_present rfl rfl rfl, answer_primitive (hshape ⟨0⟩)]
  rfl

theorem exists_answer_doubling : ∃ v, reg.answer 1 (.whole ⟨3⟩ (.obj namedX)) = .ok v := by
  refine (exists_answer_product_iff (hshape ⟨3⟩) rfl).mpr
    ⟨⟨rfl, fun _ hentry => nomatch hentry⟩, Nat.one_pos, ?_⟩
  intro field hmem hcomp
  rcases mem_doubled hmem with rfl | rfl | rfl
  · cases hcomp
  · cases hcomp
  · exact ⟨_, answerField_doubling hshape⟩

end

/-- The rule gets the same names twice, though both fields stand before those they read. -/
theorem equations_hold_doubled : ∃ (reg : Registry) (n : Node), doubling.freeze = .ok reg ∧
    reg.translate 1 ⟨3⟩ (.obj namedX) = .ok n.toValue ∧
    ¬ reg.BroughtIn 1 (.whole ⟨3⟩ (.obj namedX)) n ∧
    ∃ names, n.get? "names" = some names ∧
      n.get? "both" = some (.list [names, names, .string "x"]) := by
  obtain ⟨reg, hreg, hshape⟩ := Builder.exists_freeze_of_check (b := doubling) (by decide +kernel)
  have hplan : reg.Planned := Builder.planned_of_freeze hreg
  obtain ⟨v, hv⟩ := exists_answer_doubling hshape
  obtain ⟨n, rfl⟩ := exists_node_of_product (hshape ⟨3⟩) hv
  have hcontains : reg.contains ⟨3⟩ = true := by
    rw [contains, Builder.size_of_freeze hreg]
    rfl
  have htranslate : reg.translate 1 ⟨3⟩ (.obj namedX) = .ok n.toValue := by
    rw [translate_eq, if_pos hcontains, hv]
  have hown : ¬ reg.BroughtIn 1 (.whole ⟨3⟩ (.obj namedX)) n :=
    not_broughtIn_doubling hshape hplan
  refine ⟨reg, n, hreg, htranslate, hown, ?_⟩
  obtain ⟨s, found, p, slots, -, hbuilds, -, -, hsatisfied, -⟩ :=
    equations_hold hreg htranslate (.here n) hown
  obtain rfl : p = doubled := eq_doubled (hshape s.id ▸ hbuilds.shape)
  -- The three arguments of the rule are what the node holds under the three names.
  obtain ⟨args, hargs, hboth⟩ := hsatisfied _ List.mem_cons_self _ rfl
  obtain ⟨first, _, hfirst, htwo, rfl⟩ := List.forall₂_cons_left_iff.mp hargs
  obtain ⟨second, _, hsecond, hone, rfl⟩ := List.forall₂_cons_left_iff.mp htwo
  obtain ⟨third, _, hthird, hnone, rfl⟩ := List.forall₂_cons_left_iff.mp hone
  cases hnone
  cases hfirst.symm.trans hsecond
  have hmem : Field.required "name" ⟨0⟩ ∈ doubled.fields := by simp [doubled]
  obtain ⟨w, hw, hanswer⟩ := (builds_of_product hplan (hshape ⟨3⟩) rfl hv).field hmem rfl
  cases (answerField_doubling hshape).symm.trans hanswer
  cases hw.symm.trans hthird
  exact ⟨_, hfirst, hboth⟩

/-! ### Nodes that are brought in -/

/-- A product with a computed field and no other. -/
def leafProduct : Product where
  source := { tag := "Leaf" }
  fields := [.computed "names" ⟨0⟩ .emptySet]

/-- A node that goes by the name of the product but lacks the field. -/
def bareLeaf : Node := ⟨⟨1⟩, "Leaf", [], none⟩

/-- The product, and another one with a single field. -/
def owning (field : Field) : Builder := { declarations := [
  { name := "StringSet", body := some .nameSet },
  { name := "Leaf", body := some (.product leafProduct) },
  { name := "Owner", body := some (.product { source := { tag := "T" }, fields := [field] }) }] }

/-- A record of the second product. -/
def ownerRecord : Json := .obj [("type", .str "T")]

/-- Whether the single field of a node holds the one without fields. -/
def ownsBareLeaf : Value → Bool
  | .node _ _ [(_, .node id name [] none)] _ => id = ⟨1⟩ && name = "Leaf"
  | _ => false

theorem occursIn_of_ownsBareLeaf {v : Value} (h : ownsBareLeaf v = true) :
    bareLeaf.OccursIn v := by
  unfold ownsBareLeaf at h
  split at h
  · next id typeName name id' name' metadata =>
    simp only [Bool.and_eq_true, decide_eq_true_eq] at h
    obtain ⟨rfl, rfl⟩ := h
    exact .field (m := ⟨id, typeName, [(name, bareLeaf.toValue)], metadata⟩)
      List.mem_cons_self (.here bareLeaf)
  · cases h

theorem not_satisfied_bareLeaf : ¬ leafProduct.Satisfied bareLeaf.fields := by
  intro h
  obtain ⟨args, -, hnames⟩ := h _ List.mem_cons_self _ rfl
  cases hnames

/-- What comes through the single field stays as it is. -/
theorem exists_bareLeaf (field : Field) (h : passes (owning field).freeze (fun reg =>
      reg.translatesWithin 1 1 ⟨2⟩ ownerRecord ownsBareLeaf) = true) :
    ∃ reg v, (owning field).freeze = .ok reg ∧ reg.translate 1 ⟨2⟩ ownerRecord = .ok v ∧
      bareLeaf.OccursIn v ∧ reg.shape bareLeaf.id = .product leafProduct := by
  obtain ⟨reg, hreg, hcheck⟩ := exists_of_check h
  obtain ⟨v, hv, hbare⟩ := exists_of_translatesWithin hcheck
  exact ⟨reg, v, hreg, hv, occursIn_of_ownsBareLeaf hbare,
    (Builder.shape_of_freeze hreg ⟨1⟩).trans rfl⟩

/-- A default is taken as it is, whether the equations of its type hold in it or not. -/
theorem equation_broken_in_default :
    ¬ ∀ (b : Builder) (reg : Registry) (limit : Nat) (id : TypeId) (source : Json) (v : Value)
      (n : Node) (p : Product), b.freeze = .ok reg → reg.translate limit id source = .ok v →
      n.OccursIn v → reg.shape n.id = .product p → p.Satisfied n.fields := by
  intro h
  obtain ⟨reg, v, hreg, hv, hbare, hshape⟩ :=
    exists_bareLeaf (.withDefault "leaf" ⟨1⟩ bareLeaf.toValue) (by decide +kernel)
  exact not_satisfied_bareLeaf (h _ reg _ _ _ v bareLeaf leafProduct hreg hv hbare hshape)

/-- Nor is anything computed in a node that a rule makes. -/
theorem equation_broken_by_rule :
    ¬ ∀ (b : Builder) (reg : Registry) (limit : Nat) (id : TypeId) (source : Json) (v : Value)
      (n : Node) (p : Product), b.freeze = .ok reg → reg.SparesNodes →
      reg.translate limit id source = .ok v → n.OccursIn v → reg.shape n.id = .product p →
      p.Satisfied n.fields := by
  intro h
  obtain ⟨reg, v, hreg, hv, hbare, hshape⟩ :=
    exists_bareLeaf (.computed "leaf" ⟨1⟩ (.always bareLeaf.toValue)) (by decide +kernel)
  have hspares : reg.SparesNodes := by
    intro id p field d hp hmem hd
    rw [Builder.shape_of_freeze hreg] at hp
    obtain ⟨i⟩ := id
    match i with
    | 0 => cases hp
    | 1 | 2 =>
      cases hp
      cases List.mem_singleton.mp hmem
      cases hd
    | _ + 3 => cases hp
  exact not_satisfied_bareLeaf (h _ reg _ _ _ v bareLeaf leafProduct hreg hspares hv hbare hshape)

end Registry

end TypedTree
