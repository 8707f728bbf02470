/-
Rest elements that have fields of their own.

Every list drops a rest element at its end, and some nodes have a field that reads it there. Main
statements:

* `RestList`, `Registry.Lifts` — a list and the field for its rest element, in a product;
* `Registry.Splits` — an array is split between the values of a list and that of a rest element;
* `Registry.Builds.splits` — so is the array behind every such list of a node;
* `Catalogue.rests_lifted` — in functions and patterns of the catalogue no element is lost, and
  none is taken twice; a record is not accepted without its rest element.

Design notes: the list and the field read the array apart from each other. They agree since both
look for the tag of the last element alone, and whether that is a sound rest element is found out
by the field, which has no other way to get `null`.
-/
import TypedTree.Proofs.Catalogue.Elements

namespace TypedTree

theorem restUnder_eq_null {key : String} {record : Json.Record} {items : List Json}
    (hget : record.get? key = some (.arr items))
    (hnot : ∀ last, items.getLast? = some last → last.isRest = false) :
    restUnder key record = .null := by
  unfold restUnder
  rw [hget]
  dsimp only
  cases hlast : items.getLast? with
  | none => rfl
  | some last => simp [hnot last hlast]

/-- A list whose rest element has a field of its own: the type of the node, the key of the array
in the source, and the names of both fields. -/
structure RestList where
  owner : String
  key : String
  list : String
  rest : String

namespace Registry

variable {reg : Registry} {limit : Nat} {s r : Request} {x : RestList} {p : Product}
  {item rest : TypeId} {record : Json.Record} {items : List Json}

/-! ### Lists with a field for the rest element -/

/-- A product has a list for a key and a field for the rest element of that key. Both have to be in
the source. -/
structure Lifts (reg : Registry) (x : RestList) (p : Product) (item rest : TypeId) : Prop where
  list : ∃ field ∈ p.fields, field.name = x.list ∧ field.population = .required ∧
    field.source = .key x.key ∧ reg.shape field.type = .array item
  lifted : ∃ field ∈ p.fields, field.name = x.rest ∧ field.population = .required ∧
    field.source = .extract (.rest x.key) ∧ reg.shape field.type = .nullable rest
  element : ∃ q, reg.shape rest = .product q

/-- An array is split: its elements are translated as items of a list, in their order, but for a
rest element at its end, which is translated on its own. Without one there is `null` for it. -/
inductive Splits (reg : Registry) (limit : Nat) (s : Request) (key : String)
    (item rest : TypeId) : List Json → List Value → Value → Prop
  | whole {items : List Json} {values : List Value}
      (plain : ∀ last, items.getLast? = some last → last.isRest = false)
      (elements : List.Forall₂ (fun x value => reg.answer limit
        ⟨item, some x.1, (s.path.field key).index x.2, none, s.depth + 1⟩ = .ok value)
        items.zipIdx values) : Splits reg limit s key item rest items values .null
  | lifted {items : List Json} {last : Json} {values : List Value} {w : Value}
      (isRest : last.isRest = true)
      (elements : List.Forall₂ (fun x value => reg.answer limit
        ⟨item, some x.1, (s.path.field key).index x.2, none, s.depth + 1⟩ = .ok value)
        items.zipIdx values)
      (translated : reg.answer limit (s.part rest (some last) (s.path.field key)) = .ok w)
      (present : w ≠ .null) : Splits reg limit s key item rest (items ++ [last]) values w

/-- The array of a record behind a list of a node is split between its fields. -/
def SplitsList (reg : Registry) (limit : Nat) (x : RestList) (rest : TypeId) (s : Request)
    (record : Json.Record) (n : Node) : Prop :=
  ∃ p item items values w, reg.shape s.id = .product p ∧ reg.Lifts x p item rest ∧
    record.get? x.key = some (.arr items) ∧ n.get? x.list = some (.list values) ∧
    n.get? x.rest = some w ∧ reg.Splits limit s x.key item rest items values w

/-- The field for a rest element is `null` if there is none, and else the rest element is
translated. -/
theorem of_answerField_lifted {field : Field} {w : Value} (hfield : field.population = .required)
    (hsource : field.source = .extract (.rest x.key))
    (hshape : reg.shape field.type = .nullable rest)
    (hw : reg.answerField limit s record field = .ok w) :
    (restUnder x.key record).isNull = true ∧ w = .null ∨
      reg.answer limit (s.part rest (some (restUnder x.key record)) (s.path.field x.key)) =
        .ok w := by
  rw [answerField_of_required hfield (by simp [hsource]), Field.sourceIn, Field.stepKey,
    hsource] at hw
  exact (of_answer_nullable_eq_ok hshape hw).imp_right And.right

/-- The array behind a list of a node is split between the list and the field for the rest
element. -/
theorem Builds.splits {n : Node} (h : reg.Builds limit s record p n)
    (hspare : reg.SparesLists s p) (hlifts : reg.Lifts x p item rest) :
    reg.SplitsList limit x rest s record n := by
  obtain ⟨list, hlist, hname, hrequired, hkey, harray⟩ := hlifts.list
  obtain ⟨lifted, hlifted, hname', hrequired', hrest, hnullable⟩ := hlifts.lifted
  obtain ⟨q, hproduct⟩ := hlifts.element
  have hcomp := isComputed_of_required hrequired
  obtain ⟨v, hv, hanswer⟩ := h.field hlist hcomp
  obtain ⟨w, hw, hanswer'⟩ := h.field hlifted (isComputed_of_required hrequired')
  rw [answerField_of_required hrequired fun preset hpreset hready =>
      hspare preset hpreset list hlist hcomp hready item (.array harray),
    Field.sourceIn, Field.stepKey, hkey] at hanswer
  obtain ⟨items, values, hget, rfl, hvalues⟩ := of_answer_array_eq_ok harray hanswer
  have hget : record.get? x.key = some (.arr items) := hget
  refine ⟨p, item, items, values, w, h.shape, hlifts, hget, hname ▸ hv, hname' ▸ hw, ?_⟩
  have hlast := of_answerField_lifted hrequired' hrest hnullable hanswer'
  -- The list and the field for the rest element look at the same last item of the array.
  rcases stripRest_cases items with ⟨hnot, heq⟩ | ⟨last, hgetLast, hisRest, heq⟩
  · rw [restUnder_eq_null hget hnot] at hlast
    rw [heq] at hvalues
    rcases hlast with ⟨-, rfl⟩ | hnull
    · exact .whole hnot hvalues
    · -- No product is built from `null`.
      obtain ⟨_, -, hmatch, -⟩ := of_answer_product_eq_ok (r := s.part rest _ _) hproduct hnull
      cases (matchRecord_eq_ok_iff.mp hmatch).1
  · rw [restUnder_eq hget hgetLast hisRest, Json.isNull_eq_false_of_isRest hisRest] at hlast
    obtain ⟨hnull, -⟩ | htranslated := hlast
    · cases hnull
    · obtain ⟨m, rfl⟩ := exists_node_of_product (r := s.part rest _ _) hproduct htranslated
      rw [heq]
      exact .lifted hisRest hvalues htranslated (fun h => by cases h)

/-- A record whose rest element cannot be translated is not accepted without it. -/
theorem exists_error_of_rest {last : Json} (hshape : reg.shape r.id = .product p)
    (hlifts : reg.Lifts x p item rest) (hsource : r.source = some (.obj record))
    (hget : record.get? x.key = some (.arr items)) (hlast : items.getLast? = some last)
    (hrest : last.isRest = true)
    (hnot : ∀ w, reg.answer limit (r.part rest (some last) (r.path.field x.key)) ≠ .ok w) :
    ∃ e, reg.answer limit r = .error e := by
  cases hanswer : reg.answer limit r with
  | error e => exact ⟨e, rfl⟩
  | ok v =>
    obtain ⟨lifted, hlifted, -, hrequired, hfrom, hnullable⟩ := hlifts.lifted
    obtain ⟨-, -, hfields⟩ := (exists_answer_product_iff hshape hsource).mp ⟨v, hanswer⟩
    obtain ⟨w, hw⟩ := hfields lifted hlifted (isComputed_of_required hrequired)
    have hcases := of_answerField_lifted hrequired hfrom hnullable hw
    rw [restUnder_eq hget hlast hrest, Json.isNull_eq_false_of_isRest hrest] at hcases
    obtain ⟨hnull, -⟩ | htranslated := hcases
    · cases hnull
    · exact absurd htranslated (hnot w)

/-! ### A check -/

/-- Whether a field is the list. -/
def isList (reg : Registry) (x : RestList) (field : Field) : Bool :=
  field.name == x.list &&
    match field.population, field.source, reg.shape field.type with
    | .required, .key key, .array _ => key == x.key
    | _, _, _ => false

/-- Whether a field is the one for the rest element. -/
def isLifted (reg : Registry) (rest : TypeId) (x : RestList) (field : Field) : Bool :=
  field.name == x.rest &&
    match field.population, field.source, reg.shape field.type with
    | .required, .extract (.rest key), .nullable inner => key == x.key && inner == rest
    | _, _, _ => false

/-- Whether every type of the name of the owner is a product with both fields. -/
def lifts (reg : Registry) (rest : TypeId) (x : RestList) : Bool :=
  reg.ids.all fun id => reg.name id != x.owner ||
    match reg.shape id with
    | .product p => p.fields.any (reg.isList x) && p.fields.any (reg.isLifted rest x)
    | _ => false

theorem exists_product_of_asProduct? {id : TypeId} (h : (reg.shape id).asProduct?.isSome = true) :
    ∃ q, reg.shape id = .product q := by
  cases hshape : reg.shape id with
  | product q => exact ⟨q, rfl⟩
  | primitive | array | nullable | nameSet | union | inspect =>
    rw [hshape] at h
    cases h

theorem exists_lifts_of_check (hrest : (reg.shape rest).asProduct?.isSome = true)
    (h : reg.lifts rest x = true) {id : TypeId} (hid : id ∈ reg.ids)
    (hname : reg.name id = x.owner) :
    ∃ p item, reg.shape id = .product p ∧ reg.Lifts x p item rest := by
  have htype := List.all_eq_true.mp h id hid
  rw [hname, bne_self_eq_false, Bool.false_or] at htype
  split at htype
  · next p hshape =>
    obtain ⟨hlist, hlifted⟩ := Bool.and_eq_true_iff.mp htype
    obtain ⟨list, hmem, hlist⟩ := List.any_eq_true.mp hlist
    obtain ⟨lifted, hmem', hlifted⟩ := List.any_eq_true.mp hlifted
    obtain ⟨hlistName, hlist⟩ := Bool.and_eq_true_iff.mp hlist
    obtain ⟨hrestName, hlifted⟩ := Bool.and_eq_true_iff.mp hlifted
    split at hlist
    · next key item hrequired hsource harray =>
      split at hlifted
      · next key' inner hrequired' hsource' hnullable =>
        simp only [Bool.and_eq_true, beq_iff_eq] at hlistName hlist hrestName hlifted
        obtain ⟨rfl, rfl⟩ := hlifted
        subst hlist
        exact ⟨p, item, hshape, ⟨list, hmem, hlistName, hrequired, hsource, harray⟩,
          ⟨lifted, hmem', hrestName, hrequired', hsource', hnullable⟩,
          exists_product_of_asProduct? hrest⟩
      · cases hlifted
    · cases hlist
  · cases htype

end Registry

/-! ### The catalogue -/

namespace Catalogue

/-- The lists of the catalogue whose rest elements have fields of their own. -/
def restLists : List RestList := [
  ⟨"FunctionExpression", "params", "parameters", "restParameter"⟩,
  ⟨"ArrowFunctionExpression", "params", "parameters", "restParameter"⟩,
  ⟨"ArrayPattern", "elements", "elements", "restElement"⟩,
  ⟨"ObjectPattern", "properties", "properties", "restProperty"⟩]

/-- Whether the lists of the catalogue have fields for rest elements in a registry. -/
def liftsRests (reg : Registry) : Bool :=
  match reg.find? "RestElement" with
  | some rest => (reg.shape rest).asProduct?.isSome && restLists.all (reg.lifts rest)
  | none => false

/-- Whether a schema translates the function with a rest parameter to a node of its own name. -/
def buildsFunction (reg : Registry) : Bool :=
  match reg.find? "FunctionExpression" with
  | some id => reg.translatesWithin 256 10 id (.obj functionSource) fun v =>
      v.asNode?.any (·.typeName == "FunctionExpression")
  | none => false

/-- The catalogue passes both checks. -/
theorem full_lifts : ∃ reg rest, full = .ok reg ∧ reg.find? "RestElement" = some rest ∧
    (reg.shape rest).asProduct?.isSome = true ∧ (∀ x ∈ restLists, reg.lifts rest x = true) ∧
    buildsFunction reg = true := by
  obtain ⟨reg, hreg, hchecks⟩ : ∃ reg, full = .ok reg ∧
      (liftsRests reg && buildsFunction reg) = true :=
    exists_of_check (by decide +kernel)
  obtain ⟨hcheck, hbuilds⟩ := Bool.and_eq_true_iff.mp hchecks
  unfold liftsRests at hcheck
  split at hcheck
  · next rest hrest =>
    obtain ⟨hproduct, hlifts⟩ := Bool.and_eq_true_iff.mp hcheck
    exact ⟨reg, rest, hreg, hrest, hproduct, List.all_eq_true.mp hlifts, hbuilds⟩
  · cases hcheck

/-- In every function and pattern that the catalogue translates, the array of the source is split
between the list and the field for the rest element. A record that ends its array in what has the
tag of a rest element, but is none, is not accepted. -/
theorem rests_lifted : ∃ reg rest, full = .ok reg ∧ reg.find? "RestElement" = some rest ∧
    ∀ x ∈ restLists,
      (∀ (limit : Nat) (id : TypeId) (source : Json) (v : Value) (n : Node),
        reg.translate limit id source = .ok v → n.OccursIn v → n.typeName = x.owner →
        ∃ s record, reg.Reaches limit (.whole id source) s ∧ s.source = some (.obj record) ∧
          reg.answer limit s = .ok n.toValue ∧ (v = n.toValue → source = .obj record) ∧
          reg.SplitsList limit x rest s record n) ∧
      ∀ (limit : Nat) (r : Request) (record : Json.Record) (items : List Json) (last : Json),
        r.id ∈ reg.ids → reg.name r.id = x.owner → r.source = some (.obj record) →
        record.get? x.key = some (.arr items) → items.getLast? = some last →
        last.isRest = true →
        (∀ w, reg.answer limit (r.part rest (some last) (r.path.field x.key)) ≠ .ok w) →
        ∃ e, reg.answer limit r = .error e := by
  obtain ⟨reg, rest, hreg, hrest, hproduct, hlifts, -⟩ := full_lifts
  obtain ⟨reg', hreg', -, hspare, -⟩ := full_checks
  obtain rfl : reg = reg' := Except.ok.inj (hreg.symm.trans hreg')
  obtain ⟨b, hb⟩ := @exists_freeze_of_freezeBuilt build reg hreg
  refine ⟨reg, rest, hreg, hrest, fun x hx => ⟨?_, ?_⟩⟩
  · intro limit id source v n hv hn hname
    have hanswer := Registry.answer_of_translate_eq_ok hv
    -- The node at the top is built from the source itself, every other one somewhere in the run.
    obtain ⟨s, record, p, hrun, hbuilds, htop⟩ : ∃ s record p,
        reg.Reaches limit (.whole id source) s ∧ reg.Builds limit s record p n ∧
        (v = n.toValue → source = .obj record) := by
      by_cases htop : v = n.toValue
      · obtain ⟨s, p, record, hrun, hbuilds⟩ :=
          Registry.exists_builds_of_answer (Builder.planned_of_freeze hb) (htop ▸ hanswer)
        have hsource := (Registry.samePlace_of_settles hrun).source.symm.trans hbuilds.source
        exact ⟨s, record, p, Relation.ReflTransGen.mono (fun _ _ => .settles) _ _ hrun, hbuilds,
          fun _ => Option.some.inj hsource⟩
      · obtain ⟨reg', hreg', hkeeps⟩ := full_keepsAllItems
        obtain rfl : reg = reg' := Except.ok.inj (hreg.symm.trans hreg')
        obtain ⟨s, record, p, hrun, hbuilds, -⟩ := hkeeps limit id source v hv n hn
        exact ⟨s, record, p, hrun, hbuilds, fun h => absurd h htop⟩
    have hid : s.id ∈ reg.ids := Registry.mem_ids_of_shape_ne (by simp [hbuilds.shape])
    obtain ⟨q, item, hshape, hlists⟩ :=
      Registry.exists_lifts_of_check hproduct (hlifts x hx) hid (hbuilds.typeName ▸ hname)
    obtain rfl : p = q := Shape.product.inj (hbuilds.shape.symm.trans hshape)
    exact ⟨s, record, hrun, hbuilds.source, hbuilds.answer, htop,
      hbuilds.splits (Registry.sparesLists_of_reaches hspare rfl hrun hshape) hlists⟩
  · intro limit r record items last hid hname hsource hget hlast hisRest hnot
    obtain ⟨p, item, hshape, hlists⟩ :=
      Registry.exists_lifts_of_check hproduct (hlifts x hx) hid hname
    exact Registry.exists_error_of_rest hshape hlists hsource hget hlast hisRest hnot

/-- The function with a rest parameter has it in a field of its own. -/
theorem rests_lifted_function : ∃ reg id rest n, full = .ok reg ∧
    reg.translate 256 id (.obj functionSource) = .ok n.toValue ∧
    ∃ s, reg.SplitsList 256 ⟨"FunctionExpression", "params", "parameters", "restParameter"⟩ rest s
      functionSource n := by
  obtain ⟨reg, -, hreg, -, -, -, hcheck⟩ := full_lifts
  obtain ⟨reg', rest, hreg', -, hlists⟩ := rests_lifted
  obtain rfl : reg = reg' := Except.ok.inj (hreg.symm.trans hreg')
  unfold buildsFunction at hcheck
  split at hcheck
  · next id hid =>
    obtain ⟨v, hv, hnode⟩ := Registry.exists_of_translatesWithin hcheck
    obtain ⟨n, hn, hname⟩ := (Option.any_eq_true _ _).mp hnode
    obtain rfl : v = n.toValue := Value.eq_of_asNode?_eq_some hn
    obtain ⟨s, record, -, -, -, htop, hsplits⟩ := (hlists _ List.mem_cons_self).1 256 id
      (.obj functionSource) n.toValue n hv (.here n) (by simpa using hname)
    cases htop rfl
    exact ⟨reg, id, rest, n, hreg, hv, s, hsplits⟩
  · cases hcheck

end Catalogue

end TypedTree
