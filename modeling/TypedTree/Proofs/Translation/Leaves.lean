/-
Which nodes the fields of a translated node hold.

Main statements:

* `Registry.Leaves` — a value holds, outside of nodes, only what its type leads to;
* `Registry.BuiltAs` — a node has the fields of a product, its values hold only what their
  types lead to, and its computed fields hold what their rules say;
* `Registry.built_of_translate` — every node of a translated value is built so.

Design notes: to be an instance of a type says less, for any value at all is an instance of
a type without condition, nodes and lists of nodes included. A translation puts none there
but where an inspect shape hands a value over, so the fields that may take one are checked.
-/
import TypedTree.Proofs.Attribute
import TypedTree.Proofs.Translation.Population

namespace TypedTree

theorem Value.Plain.not_holds {v : Value} {n : Node} (h : v.Plain) : ¬ v.Holds n := by
  intro hn
  cases hn <;> cases h

theorem Value.Plain.not_holdsNames {v : Value} (h : v.Plain) : ¬ v.HoldsNames := by
  intro hn
  cases hn <;> cases h

theorem Node.OccursIn.of_holds {v : Value} {n m : Node} (h : v.Holds m)
    (hn : n.OccursIn m.toValue) : n.OccursIn v := by
  induction h with
  | here => exact hn
  | item mem _ ih => exact .item mem (ih hn)

theorem Shape.mem_contents_of_mem_samePath {shape : Shape} {id : TypeId}
    (h : id ∈ shape.samePath) : id ∈ shape.contents := by
  cases shape with
  | nullable | union | inspect => exact h
  | primitive | array | nameSet | product => cases h

namespace Registry

variable {reg : Registry} {limit : Nat} {id : TypeId} {v : Value}

/-- A value holds, outside of nodes, only what its type leads to. -/
structure Leaves (reg : Registry) (id : TypeId) (v : Value) : Prop where
  node : ∀ n, v.Holds n → reg.Yields id n.id
  names : v.HoldsNames → ∃ last, reg.Yields id last ∧ reg.shape last = .nameSet

theorem Leaves.of_plain (h : v.Plain) : reg.Leaves id v :=
  ⟨fun _ hn => absurd hn h.not_holds, fun hn => absurd hn h.not_holdsNames⟩

theorem Leaves.of_nameSet {set : NameSet} (h : reg.shape id = .nameSet) :
    reg.Leaves id (.names set) := by
  refine ⟨fun n hn => ?_, fun _ => ⟨id, .refl id, h⟩⟩
  cases hn

theorem Leaves.of_array {item : TypeId} {vs : List Value} (h : reg.shape id = .array item)
    (hvs : ∀ v ∈ vs, reg.Leaves item v) : reg.Leaves id (.list vs) := by
  have hmem : item ∈ (reg.shape id).contents := by simp [h, Shape.contents]
  constructor
  · intro n hn
    obtain ⟨v, hv, hn⟩ := Value.holds_list_iff.mp hn
    exact .step hmem ((hvs v hv).node n hn)
  · intro hn
    obtain ⟨v, hv, hn⟩ := Value.holdsNames_list_iff.mp hn
    obtain ⟨last, hlast, hset⟩ := (hvs v hv).names hn
    exact ⟨last, .step hmem hlast, hset⟩

theorem Leaves.of_contents {next : TypeId} (hnext : next ∈ (reg.shape id).contents)
    (h : reg.Leaves next v) : reg.Leaves id v := by
  refine ⟨fun n hn => .step hnext (h.node n hn), fun hn => ?_⟩
  obtain ⟨last, hlast, hset⟩ := h.names hn
  exact ⟨last, .step hnext hlast, hset⟩

theorem Leaves.of_node {n : Node} : reg.Leaves n.id n.toValue := by
  constructor
  · intro m hm
    rw [← Value.holds_toValue_iff.mp hm]
    exact .refl n.id
  · intro hn
    cases hn

/-- A node has the fields of a product, its values hold only what their types lead to, and
its computed fields hold what their rules say. -/
structure BuiltAs (reg : Registry) (n : Node) (p : Product) : Prop where
  shape : reg.shape n.id = .product p
  typeName : n.typeName = reg.name n.id
  entries : List.Forall₂ (fun field entry => entry.1 = field.name ∧
    reg.Leaves field.type entry.2) p.fields n.fields
  satisfied : p.Satisfied n.fields

/-- A node is built as its type says. -/
def Built (reg : Registry) (n : Node) : Prop := ∃ p, reg.BuiltAs n p

/-- A value that holds only what its type leads to, and all nodes inside are built. -/
def Grown (reg : Registry) (id : TypeId) (v : Value) : Prop :=
  reg.Leaves id v ∧ ∀ n : Node, n.OccursIn v → reg.Built n

theorem grown_structural : reg.Structural reg.Grown where
  plain _ _ hv := ⟨.of_plain hv, fun _ hn => absurd hn hv.not_occursIn⟩
  names h := ⟨.of_nameSet h, fun _ hn => absurd hn Value.not_occursIn_names⟩
  list := by
    intro id item vs h hvs
    refine ⟨.of_array h fun v hv => (hvs v hv).1, fun n hn => ?_⟩
    obtain ⟨v, hv, hn⟩ := Node.occursIn_list_iff.mp hn
    exact (hvs v hv).2 n hn
  null _ := ⟨.of_plain .null, fun _ hn => absurd hn Value.Plain.null.not_occursIn⟩
  step hnext hv := ⟨.of_contents (Shape.mem_contents_of_mem_samePath hnext) hv.1, hv.2⟩

theorem grown_node {p : Product} {entries : List (String × Value)} {metadata : Option Metadata}
    (h : reg.shape id = .product p)
    (hentries : List.Forall₂ (fun field entry => entry.1 = field.name ∧
      reg.Grown field.type entry.2) p.fields entries)
    (hsat : p.Satisfied entries) :
    reg.Grown id (.node id (reg.name id) entries metadata) := by
  -- A node inside is this one, or stands in a field whose value is grown already.
  let n : Node := ⟨id, reg.name id, entries, metadata⟩
  refine ⟨Leaves.of_node (n := n), fun m hm => ?_⟩
  rcases (Node.occursIn_toValue_iff (m := n)).mp hm with rfl | ⟨name, v, hmem, hm⟩
  · exact ⟨p, h, rfl, hentries.imp fun field entry hfield => ⟨hfield.1, hfield.2.1⟩, hsat⟩
  · obtain ⟨field, -, -, hgrown⟩ := exists_of_forall₂_of_mem_right hentries hmem
    exact hgrown.2 m hm

/-! ### Values handed over -/

/-- Whether a type sets a condition. -/
def isSelective (reg : Registry) (id : TypeId) : Bool :=
  match reg.shape id with
  | .primitive .any => false
  | _ => true

/-- An instance of a type without `any` holds only what the type leads to. -/
theorem leaves_of_isInstance : ∀ {steps : Nat} {id : TypeId} {v : Value},
    reg.leavesSatisfy reg.isSelective steps id = true → reg.isInstance id v = true →
      reg.Leaves id v := by
  intro steps
  induction steps with
  | zero =>
    intro id v h
    cases h
  | succ steps ih =>
    intro id v h hv
    rw [isInstance_eq] at hv
    -- Every type that this one yields passes the check with one step less.
    have hnext : ∀ {next : TypeId} {w : Value}, next ∈ (reg.shape id).contents →
        reg.isInstance next w = true → reg.Leaves next w :=
      fun mem hw => ih (leavesSatisfy_succ_of_mem h mem) hw
    cases hshape : reg.shape id with
    | primitive kind =>
      have hsel : reg.isSelective id = true := by
        rwa [leavesSatisfy, hshape] at h
      rw [hshape] at hv
      refine .of_plain (Primitive.plain_of_holds ?_ hv)
      rintro rfl
      simp [isSelective, hshape] at hsel
    | nameSet =>
      rw [hshape] at hv
      cases v <;> simp only [Value.asNames?, Option.isSome, Bool.false_eq_true] at hv
      exact .of_nameSet hshape
    | array item =>
      rw [hshape] at hv hnext
      cases v <;> simp only [Bool.false_eq_true] at hv
      refine .of_array hshape fun w hw => hnext ?_ (List.all_eq_true.mp hv w hw)
      simp [Shape.contents]
    | product p =>
      rw [hshape] at hv
      cases v <;> simp only [Value.asNode?, Option.map, beq_iff_eq, reduceCtorEq, Option.some.injEq]
        at hv
      subst hv
      exact Leaves.of_node (n := ⟨_, _, _, _⟩)
    | nullable inner =>
      rw [hshape] at hv
      have hmem : inner ∈ (reg.shape id).contents := by simp [hshape, Shape.contents]
      rcases Bool.or_eq_true_iff.mp hv with hnull | hinner
      · cases v <;> simp only [Value.isNull, Bool.false_eq_true] at hnull
        exact .of_plain .null
      · exact .of_contents hmem (hnext hmem hinner)
    | union alternatives =>
      rw [hshape] at hv
      obtain ⟨a, ha, hv⟩ := List.any_eq_true.mp hv
      have hmem : a ∈ (reg.shape id).contents := by simpa [hshape, Shape.contents] using ha
      exact .of_contents hmem (hnext hmem hv)
    | inspect i =>
      rw [hshape] at hv
      obtain ⟨arm, harm, hv⟩ := List.any_eq_true.mp hv
      have hmem : arm.target ∈ (reg.shape id).contents := by
        rw [hshape]
        exact List.mem_map_of_mem harm
      exact .of_contents hmem (hnext hmem hv)

/-- Whether a field that may take a value handed over under a key sets a condition. -/
def takesSelectively (reg : Registry) (steps : Nat) (key : String) (field : Field) : Bool :=
  match field.source with
  | .key k => k != key || reg.leavesSatisfy reg.isSelective steps field.type
  | .extract _ => true

/-- Whether all fields that may take a value handed over set a condition. -/
def handsOverWithin (reg : Registry) (steps : Nat) : Bool :=
  reg.ids.all fun id =>
    match reg.shape id with
    | .inspect i =>
      reg.samePathSatisfy (fun last =>
        match (reg.shape last).asProduct? with
        | some p => p.fields.all (reg.takesSelectively steps i.field)
        | none => true) steps id
    | _ => true

theorem leaves_of_handsOverWithin {steps : Nat} (h : reg.handsOverWithin steps = true)
    {i : Inspect} {last : TypeId} {p : Product} {field : Field}
    (hshape : reg.shape id = .inspect i) (hlast : reg.SamePath id last)
    (hproduct : reg.shape last = .product p) (hmem : field ∈ p.fields)
    (hkey : field.source = .key i.field) (hv : reg.isInstance field.type v = true) :
    reg.Leaves field.type v := by
  have hid := List.all_eq_true.mp h id (mem_ids_of_shape_ne (by simp [hshape]))
  simp only [hshape] at hid
  have hfields := of_samePathSatisfy hid hlast
  simp only [hproduct, Shape.asProduct?] at hfields
  have hfield := List.all_eq_true.mp hfields field hmem
  rw [takesSelectively, hkey] at hfield
  simp only [bne_self_eq_false, Bool.false_or] at hfield
  exact leaves_of_isInstance hfield hv

/-- To be grown is closed under translation in a registry that passes both checks. -/
theorem grown_typing {steps : Nat} (hpop : reg.populatesWithin steps = true)
    (hhand : reg.handsOverWithin steps = true) : reg.Typing reg.Grown where
  toStructural := grown_structural
  toPopulated := grown_structural.populated hpop
  handed hshape hlast hproduct hmem hkey hv hinst :=
    ⟨leaves_of_handsOverWithin hhand hshape hlast hproduct hmem hkey hinst, hv.2⟩
  node := grown_node

/-- Every node of a translated value is built from the fields of its type. -/
theorem built_of_translate {b : Builder} (hb : b.freeze = .ok reg) {steps : Nat}
    (hpop : reg.populatesWithin steps = true) (hhand : reg.handsOverWithin steps = true)
    {source : Json} (hv : reg.translate limit id source = .ok v) {n : Node} (hn : n.OccursIn v) :
    reg.Built n :=
  ((grown_typing hpop hhand).translate (Builder.planned_of_freeze hb) hv).2 n hn

end Registry

end TypedTree
