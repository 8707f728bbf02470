/-
Members of object literals and of object patterns.

The records of both look alike, and the translated value tells which one it is. Main statements:

* `Catalogue.Members` — the types involved, and `Catalogue.Members.Sound` — how they hang together;
* `Catalogue.Destructures` — the value of a record is a pattern, by its tag;
* `Catalogue.member_iff` — a member is a property pattern where the value is a pattern, and a
  property otherwise, with the same value that is translated without looking ahead.

Design notes: the value is translated first, as an expression or a pattern, and then tested. It is
a pattern just if its record has the tag of one, for no expression is built from such a record.
-/
import TypedTree.Proofs.Schema.Check
import TypedTree.Proofs.Translation.Bounded
import TypedTree.Proofs.Translation.Sorting

namespace TypedTree

namespace Catalogue

open Json (Record)

/-- The types that have a say when a member is translated. -/
structure Members where
  member : TypeId
  property : TypeId
  patternProperty : TypeId
  value : TypeId
  expression : TypeId
  pattern : TypeId
  destructuring : TypeId

/-- The types by their names. -/
def Members.find? (reg : Registry) : Option Members := do
  return {
    member := ← reg.find? "ObjectMember"
    property := ← reg.find? "ObjectProperty"
    patternProperty := ← reg.find? "ObjectPropertyPattern"
    value := ← reg.find? "ObjectMemberValue"
    expression := ← reg.find? "Expression"
    pattern := ← reg.find? "Pattern"
    destructuring := ← reg.find? "DestructuringPattern" }

/-- The tags of the patterns that take a value apart. -/
def destructuringTags : List String := ["ObjectPattern", "ArrayPattern", "AssignmentPattern"]

/-- The value of a record is a pattern that takes a value apart, by its tag. -/
def Destructures (record : Record) : Prop :=
  ∃ tag ∈ destructuringTags, (record.get? "value").bind Json.tag? = some tag

namespace Members

/-- The choice of a member: by its value, a pattern first. -/
def choice (m : Members) : Inspect where
  field := "value"
  probe := m.value
  arms := [⟨m.destructuring, m.patternProperty⟩, ⟨m.expression, m.property⟩]

/-- How the types of members hang together. -/
structure Sound (reg : Registry) (m : Members) : Prop where
  choice : reg.shape m.member = .inspect m.choice
  value : reg.shape m.value = .union [m.expression, m.destructuring]
  sorts : ∀ id ∈ [m.value, m.pattern, m.property, m.patternProperty], reg.Sorts id
  readsExpression : reg.ReadsAs "value" m.expression m.property
  readsPattern : reg.ReadsAs "value" m.pattern m.patternProperty
  tagged : ∀ u p, reg.Comes m.destructuring u → reg.shape u = .product p →
    p.source.tag ∈ destructuringTags
  shared : ∀ tag ∈ destructuringTags, ∃ u p, reg.Comes m.destructuring u ∧ reg.Comes m.pattern u ∧
    reg.shape u = .product p ∧ p.source.tag = tag ∧ p.source.literals = []

/-! ### A check -/

/-- Whether the choice of a member is as it should be. -/
def choosesByValue (reg : Registry) (m : Members) : Bool :=
  match reg.shape m.member with
  | .inspect ⟨field, probe, [⟨test, target⟩, ⟨test', target'⟩]⟩ =>
    field == "value" && probe == m.value && test == m.destructuring &&
      target == m.patternProperty && test' == m.expression && target' == m.property
  | _ => false

/-- Whether a value is an expression or a pattern. -/
def joinsValues (reg : Registry) (m : Members) : Bool :=
  match reg.shape m.value with
  | .union alternatives => alternatives == [m.expression, m.destructuring]
  | _ => false

/-- Whether all patterns that take a value apart have their tags. -/
def tagsPatterns (reg : Registry) (steps : Nat) (m : Members) : Bool :=
  Graph.endsSatisfy (fun id => (reg.shape id).options) (fun u =>
    match reg.shape u with
    | .product p => p.source.tag ∈ destructuringTags
    | _ => true) steps m.destructuring

/-- Whether there is a pattern that takes a value apart for a tag, with no further entries. -/
def sharesPattern (reg : Registry) (m : Members) (tag : String) : Bool :=
  (reg.shape m.destructuring).options.any fun u =>
    u ∈ (reg.shape m.pattern).options &&
      match reg.shape u with
      | .product p => p.source.tag == tag && p.source.literals.isEmpty
      | _ => false

/-- Whether the types of members hang together, as far as so many steps tell. -/
def soundWithin (reg : Registry) (steps : Nat) (m : Members) : Bool :=
  m.choosesByValue reg && m.joinsValues reg &&
    [m.value, m.pattern, m.property, m.patternProperty].all (reg.sortsWithin steps) &&
    reg.readsAsWithin steps "value" m.expression m.property &&
    reg.readsAsWithin steps "value" m.pattern m.patternProperty &&
    m.tagsPatterns reg steps && destructuringTags.all (m.sharesPattern reg)

theorem shape_of_choosesByValue {reg : Registry} {m : Members} (h : m.choosesByValue reg = true) :
    reg.shape m.member = .inspect m.choice := by
  unfold choosesByValue at h
  split at h
  · next field probe test target test' target' hshape =>
    simp only [Bool.and_eq_true, beq_iff_eq] at h
    obtain ⟨⟨⟨⟨⟨rfl, rfl⟩, rfl⟩, rfl⟩, rfl⟩, rfl⟩ := h
    exact hshape
  · cases h

theorem sound_of_within {reg : Registry} {steps : Nat} {m : Members}
    (h : m.soundWithin reg steps = true) : m.Sound reg := by
  simp only [soundWithin, Bool.and_eq_true] at h
  obtain ⟨⟨⟨⟨⟨⟨hchoice, hvalue⟩, hsorts⟩, hexpression⟩, hpattern⟩, htagged⟩, hshared⟩ := h
  refine ⟨shape_of_choosesByValue hchoice, ?_, ?_, Registry.readsAs_of_within hexpression,
    Registry.readsAs_of_within hpattern, ?_, ?_⟩
  · unfold joinsValues at hvalue
    split at hvalue
    · next alternatives hshape => rw [hshape, beq_iff_eq.mp hvalue]
    · cases hvalue
  · exact fun id hid => Registry.sorts_of_within (List.all_eq_true.mp hsorts id hid)
  · intro u p hu hshape
    have htag := Graph.of_endsSatisfy htagged hu (by rw [hshape]; rfl)
    rw [hshape] at htag
    exact of_decide_eq_true htag
  · intro tag htag
    obtain ⟨u, hu, hcheck⟩ := List.any_eq_true.mp (List.all_eq_true.mp hshared tag htag)
    obtain ⟨hpattern, hproduct⟩ := Bool.and_eq_true_iff.mp hcheck
    split at hproduct
    · next p hshape =>
      obtain ⟨htag, hliterals⟩ := Bool.and_eq_true_iff.mp hproduct
      exact ⟨u, p, .single hu, .single (of_decide_eq_true hpattern), hshape, beq_iff_eq.mp htag,
        List.isEmpty_iff.mp hliterals⟩
    · cases hproduct

/-! ### What is chosen -/

namespace Sound

open Registry

variable {reg : Registry} {limit : Nat} {m : Members} {record : Record} {s : Request} {u : TypeId}
  {p : Product}

theorem comes_value_of_expression (h : m.Sound reg) (hu : reg.Comes m.expression u) :
    reg.Comes m.value u := by
  have hnext : m.expression ∈ (reg.shape m.value).options := by
    rw [h.value]
    exact List.mem_cons_self
  exact .head hnext hu

theorem comes_value_of_destructuring (h : m.Sound reg) (hu : reg.Comes m.destructuring u) :
    reg.Comes m.value u := by
  have hnext : m.destructuring ∈ (reg.shape m.value).options := by
    rw [h.value]
    exact List.mem_cons_of_mem _ List.mem_cons_self
  exact .head hnext hu

theorem sorts_value (h : m.Sound reg) : reg.Sorts m.value := h.sorts _ List.mem_cons_self

theorem sorts_expression (h : m.Sound reg) : reg.Sorts m.expression :=
  h.sorts_value.of_comes (h.comes_value_of_expression .refl)

theorem sorts_destructuring (h : m.Sound reg) : reg.Sorts m.destructuring :=
  h.sorts_value.of_comes (h.comes_value_of_destructuring .refl)

theorem sorts_pattern (h : m.Sound reg) : reg.Sorts m.pattern := h.sorts _ (by simp)

/-- A pattern that takes a value apart is built from a record with its tag. -/
theorem destructures_of_answer (h : m.Sound reg) (hsource : s.source = record.get? "value")
    (hu : reg.Comes m.destructuring u) (hshape : reg.shape u = .product p) {w : Value}
    (hw : reg.answer limit (s.as u) = .ok w) : Destructures record := by
  obtain ⟨value, hvalue, hadmits⟩ := exists_suits_of_product hshape hw
  refine ⟨p.source.tag, h.tagged u p hu hshape, ?_⟩
  rw [← hsource, hvalue]
  exact hadmits.1

/-- A record with the tag of a pattern is taken by one of the patterns that take a value apart, or
by none. It is the same for a value as for a pattern. -/
theorem exists_shared (h : m.Sound reg) (hsource : s.source = record.get? "value")
    (hpattern : Destructures record) :
    ∃ u p, reg.Comes m.destructuring u ∧ reg.shape u = .product p ∧
      ∀ w, (reg.answer limit (s.as m.value) = .ok w ↔ reg.answer limit (s.as u) = .ok w) ∧
        (reg.answer limit (s.as m.pattern) = .ok w ↔ reg.answer limit (s.as u) = .ok w) := by
  obtain ⟨tag, htag, hvalue⟩ := hpattern
  obtain ⟨u, p, hu, hu', hshape, rfl, hliterals⟩ := h.shared tag htag
  refine ⟨u, p, hu, hshape, ?_⟩
  -- Whatever else takes the record would have to be suited by it, too.
  have hone : ∀ {id : TypeId}, reg.Sorts id → reg.Comes id u → ∀ w,
      (reg.answer limit (s.as id) = .ok w ↔ reg.answer limit (s.as u) = .ok w) := by
    intro id hsorts hcomes w
    refine ⟨fun hw => ?_, hsorts.answer_of_product (r := s.as id) hcomes hshape⟩
    obtain ⟨last, q, hlast, hproduct, hanswer⟩ := Sorts.exists_product (s.as id) hsorts hw
    obtain ⟨value, hfound, hadmits⟩ := exists_suits_of_product (r := s) hproduct hanswer
    rw [← hsource, hfound] at hvalue
    have hsuits : p.source.Admits value := ⟨hvalue, by simp [hliterals]⟩
    obtain rfl : last = u :=
      hsorts.apart hlast hcomes (.product hproduct hadmits) (.product hshape hsuits)
    exact hanswer
  exact fun w => ⟨hone h.sorts_value (h.comes_value_of_destructuring hu) w,
    hone h.sorts_pattern hu' w⟩

/-- Where the value is no pattern by its tag, a value is an expression. -/
theorem answer_value_iff (h : m.Sound reg) (hsource : s.source = record.get? "value")
    (hnot : ¬ Destructures record) (w : Value) :
    reg.answer limit (s.as m.value) = .ok w ↔ reg.answer limit (s.as m.expression) = .ok w := by
  constructor
  · intro hw
    obtain ⟨a, ha, hanswer⟩ := of_answer_union_eq_ok (r := s.as m.value) h.value hw
    rcases List.mem_pair.mp ha with rfl | rfl
    · exact hanswer
    · obtain ⟨u, p, hu, hshape, hanswer⟩ :=
        Sorts.exists_product (s.as m.destructuring) h.sorts_destructuring hanswer
      exact absurd (h.destructures_of_answer hsource hu hshape hanswer) hnot
  · exact Sorts.answer_of_comes (r := s.as m.value) h.sorts_value
      (h.comes_value_of_expression .refl)

/-- The first arm is chosen for a pattern. -/
theorem chooses_pattern (h : m.Sound reg) (hu : reg.Comes m.destructuring u)
    (hshape : reg.shape u = .product p) {w : Value} (hw : reg.answer limit (s.as u) = .ok w) :
    m.choice.arms.find? (fun arm => reg.isInstance arm.test w) =
      some ⟨m.destructuring, m.patternProperty⟩ := by
  obtain ⟨n, rfl, hid⟩ := exists_node_of_as hshape hw
  have hinstance : reg.isInstance m.destructuring n.toValue = true :=
    (Sorts.isInstance_iff (hid ▸ hshape) h.sorts_destructuring).mpr (hid ▸ hu)
  rw [Members.choice, List.find?_cons, hinstance]

/-- The second arm is chosen for an expression, unless the value is a pattern by its tag. -/
theorem chooses_expression (h : m.Sound reg) (hsource : s.source = record.get? "value")
    (hnot : ¬ Destructures record) {w : Value}
    (hw : reg.answer limit (s.as m.expression) = .ok w) :
    m.choice.arms.find? (fun arm => reg.isInstance arm.test w) =
      some ⟨m.expression, m.property⟩ := by
  obtain ⟨u, p, hu, hshape, hanswer⟩ :=
    Sorts.exists_product (s.as m.expression) h.sorts_expression hw
  obtain ⟨n, rfl, hid⟩ := exists_node_of_as hshape hanswer
  have hproduct : reg.shape n.id = .product p := hid ▸ hshape
  have hinstance : reg.isInstance m.expression n.toValue = true :=
    (Sorts.isInstance_iff hproduct h.sorts_expression).mpr (hid ▸ hu)
  have hother : reg.isInstance m.destructuring n.toValue = false := by
    rw [← Bool.not_eq_true, Sorts.isInstance_iff hproduct h.sorts_destructuring, hid]
    exact fun hcomes => hnot (h.destructures_of_answer hsource hcomes hshape hanswer)
  rw [Members.choice, List.find?_cons, hother, List.find?_cons, hinstance]

/-- A member is a property pattern or a property, by the tag of its value. -/
theorem answer_member_iff (h : m.Sound reg) {r : Request} (hpreset : r.preset = none)
    (hsource : r.source = some (.obj record)) (v : Value) :
    reg.answer limit (r.as m.member) = .ok v ↔
      Destructures record ∧ reg.answer limit (r.as m.patternProperty) = .ok v ∨
        ¬ Destructures record ∧ reg.answer limit (r.as m.property) = .ok v := by
  let s : Request := r.part m.value (record.get? "value") (r.path.field "value")
  by_cases hpattern : Destructures record
  · obtain ⟨u, p, hu, hshape, hsame⟩ := @exists_shared reg limit m record s h rfl hpattern
    have hiff : reg.answer limit (r.as m.member) = .ok v ↔
        reg.answer limit (r.as m.patternProperty) = .ok v :=
      answer_inspect_iff (r := r.as m.member) h.choice hpreset hsource List.mem_cons_self
        h.sorts_pattern (h.sorts _ (by simp)) h.readsPattern
        (fun w => (hsame w).1.trans (hsame w).2.symm)
        (fun w hw => h.chooses_pattern hu hshape ((hsame w).1.mp hw))
    simpa [hpattern] using hiff
  · have hvalue : ∀ w, reg.answer limit (s.as m.value) = .ok w ↔
        reg.answer limit (s.as m.expression) = .ok w := h.answer_value_iff rfl hpattern
    have hiff : reg.answer limit (r.as m.member) = .ok v ↔
        reg.answer limit (r.as m.property) = .ok v :=
      answer_inspect_iff (r := r.as m.member) h.choice hpreset hsource
        (List.mem_cons_of_mem _ List.mem_cons_self) h.sorts_expression (h.sorts _ (by simp))
        h.readsExpression hvalue
        (fun w hw => h.chooses_expression (s := s) rfl hpattern ((hvalue w).mp hw))
    simpa [hpattern] using hiff

end Sound

end Members

/-! ### The catalogue -/

/-- Whether the types of members are there and hang together, as far as so many steps tell. -/
def membersSound (steps : Nat) (reg : Registry) : Bool :=
  match Members.find? reg with
  | some m => m.soundWithin reg steps
  | none => false

/-- A name as a value. -/
def nameSource : Json := .obj [("type", .str "Identifier"), ("name", .str "a")]

/-- A name with a default, which is a pattern. -/
def defaultSource : Json := .obj [("type", .str "AssignmentPattern"), ("left", nameSource),
  ("right", .obj [("type", .str "NumericLiteral"), ("value", .num (.int 1))])]

/-- A member that is written without its key. -/
def shorthandSource (value : Json) : Record := [
  ("type", .str "ObjectProperty"), ("key", nameSource), ("value", value),
  ("shorthand", .bool true), ("computed", .bool false)]

/-- Whether a schema translates a member without its key, as a type of one name, to a node of the
type of another one. -/
def buildsMember (reg : Registry) (name nodeName : String) (value : Json) : Bool :=
  (reg.find? name).any fun id =>
    reg.translatesWithin 256 10 id (.obj (shorthandSource value)) fun v =>
      v.asNode?.any fun n => n.typeName == nodeName && reg.find? nodeName == some n.id

theorem exists_node_of_buildsMember {reg : Registry} {name nodeName : String} {value : Json}
    {id : TypeId} (hid : reg.find? name = some id)
    (h : buildsMember reg name nodeName value = true) :
    ∃ n : Node, n.typeName = nodeName ∧ reg.find? nodeName = some n.id ∧
      reg.translate 256 id (.obj (shorthandSource value)) = .ok n.toValue := by
  rw [buildsMember, hid, Option.any_some] at h
  obtain ⟨v, hv, hnode⟩ := Registry.exists_of_translatesWithin h
  obtain ⟨n, hn, htype⟩ := (Option.any_eq_true _ _).mp hnode
  rw [Bool.and_eq_true, beq_iff_eq, beq_iff_eq] at htype
  obtain rfl : v = n.toValue := Value.eq_of_asNode?_eq_some hn
  exact ⟨n, htype.1, htype.2, hv⟩

/-- Whether a schema translates the member with a name as a shorthand property and the one with a
default as a property pattern. -/
def buildsMembers (reg : Registry) : Bool :=
  buildsMember reg "ObjectProperty" "ObjectPropertyShorthand" nameSource &&
    buildsMember reg "ObjectPropertyPattern" "ObjectPropertyPattern" defaultSource

/-- The catalogue passes both checks. -/
theorem full_members : ∃ reg m, full = .ok reg ∧ Members.find? reg = some m ∧ m.Sound reg ∧
    buildsMembers reg = true := by
  obtain ⟨reg, hreg, hchecks⟩ : ∃ reg, full = .ok reg ∧
      (membersSound 6 reg && buildsMembers reg) = true :=
    exists_of_check (by decide +kernel)
  obtain ⟨hcheck, hbuilds⟩ := Bool.and_eq_true_iff.mp hchecks
  unfold membersSound at hcheck
  split at hcheck
  · next m hm => exact ⟨reg, m, hreg, hm, Members.sound_of_within hcheck, hbuilds⟩
  · cases hcheck

/-- In the catalogue, a record is translated as a member just as it is translated as a property
pattern, if its value has the tag of a pattern, and as a property otherwise. The node is the same,
with all its fields and its metadata. -/
theorem member_iff : ∃ reg member property patternProperty, full = .ok reg ∧
    reg.find? "ObjectMember" = some member ∧ reg.find? "ObjectProperty" = some property ∧
    reg.find? "ObjectPropertyPattern" = some patternProperty ∧
    ∀ (limit : Nat) (record : Record) (path : Path) (depth : Nat) (v : Value),
      reg.translateAt limit member (some (.obj record)) path none depth = .ok v ↔
        Destructures record ∧
          reg.translateAt limit patternProperty (some (.obj record)) path none depth = .ok v ∨
        ¬ Destructures record ∧
          reg.translateAt limit property (some (.obj record)) path none depth = .ok v := by
  obtain ⟨reg, m, hreg, hm, hsound, -⟩ := full_members
  simp only [Members.find?, Option.bind_eq_bind, Option.bind_eq_some_iff, Option.pure_def,
    Option.some.injEq] at hm
  obtain ⟨member, hmember, property, hproperty, patternProperty, hpattern, _, -, _, -, _, -, _, -,
    rfl⟩ := hm
  exact ⟨reg, member, property, patternProperty, hreg, hmember, hproperty, hpattern,
    fun limit record path depth v => hsound.answer_member_iff
      (r := ⟨member, some (.obj record), path, none, depth⟩) rfl rfl v⟩

/-- A member without its key becomes a property pattern if there is a default for it, and else a
shorthand property. -/
theorem member_iff_shorthand : ∃ (reg : Registry) (member property patternProperty : TypeId)
    (n m : Node), full = .ok reg ∧
    reg.find? "ObjectMember" = some member ∧ reg.find? "ObjectProperty" = some property ∧
    reg.find? "ObjectPropertyPattern" = some patternProperty ∧
    (n.typeName = "ObjectPropertyPattern" ∧ reg.find? "ObjectPropertyPattern" = some n.id ∧
      reg.translate 256 patternProperty (.obj (shorthandSource defaultSource)) = .ok n.toValue ∧
      reg.translateAt 256 member (some (.obj (shorthandSource defaultSource))) .root none 0 =
        .ok n.toValue) ∧
    m.typeName = "ObjectPropertyShorthand" ∧ reg.find? "ObjectPropertyShorthand" = some m.id ∧
    reg.translate 256 property (.obj (shorthandSource nameSource)) = .ok m.toValue ∧
    reg.translateAt 256 member (some (.obj (shorthandSource nameSource))) .root none 0 =
      .ok m.toValue := by
  obtain ⟨reg, -, hreg, -, -, hbuilds⟩ := full_members
  obtain ⟨reg', member, property, patternProperty, hreg', hmember, hproperty, hpattern, hiff⟩ :=
    member_iff
  obtain rfl : reg = reg' := Except.ok.inj (hreg.symm.trans hreg')
  obtain ⟨hbuildsProperty, hbuildsPattern⟩ := Bool.and_eq_true_iff.mp hbuilds
  obtain ⟨m, hmname, hmid, hm⟩ := exists_node_of_buildsMember hproperty hbuildsProperty
  obtain ⟨n, hnname, hnid, hn⟩ := exists_node_of_buildsMember hpattern hbuildsPattern
  have hdefault : Destructures (shorthandSource defaultSource) :=
    ⟨"AssignmentPattern", by decide, rfl⟩
  have hname : ¬ Destructures (shorthandSource nameSource) := by
    rintro ⟨tag, htag, hvalue⟩
    have hvalue : some "Identifier" = some tag := hvalue
    cases hvalue
    exact absurd htag (by decide)
  have hpatternMember := (hiff 256 _ .root 0 n.toValue).mpr
    (.inl ⟨hdefault, Registry.answer_of_translate_eq_ok hn⟩)
  have hpropertyMember := (hiff 256 _ .root 0 m.toValue).mpr
    (.inr ⟨hname, Registry.answer_of_translate_eq_ok hm⟩)
  exact ⟨reg, member, property, patternProperty, n, m, hreg, hmember, hproperty, hpattern,
    ⟨hnname, hnid, hn, hpatternMember⟩, hmname, hmid, hm, hpropertyMember⟩

end Catalogue

end TypedTree
