/-
Structural types under names that may collide.

The name of a structural type is put together from the names of its parts. Where the names of
a grammar are chosen without care, two structural types may get one name, or one gets the name
of a node type; the first body then stands for both. Something is still true of every schema
that grows this way. Main statements:

* `Builder.Labels` — a name is put together from the names of the parts of a body;
* `Builder.Layered` — every type that is not named by the grammar has a body that its name is
  the label of;
* `Builder.Labels.name_lt` — a label is longer than the names in it;
* `Builder.Layered.intern` and its neighbours — a schema stays layered while structural types
  are given out;
* `Builder.Layered.nullable` — what is made to take `null` takes it, unless a name of the
  grammar is in the way.

Design notes: `Builder.Sound` is the stronger invariant, under which a name tells its body; it
asks for names that cannot be mistaken for labels. Here nothing is asked of names.
-/
import TypedTree.Proofs.Synthesis.Growth

namespace TypedTree

/-! ### Lengths of labels -/

theorem length_le_union {a : String} {members : List String} (h : a ∈ members) :
    a.toList.length ≤ (" | ".intercalate members).toList.length := by
  induction members with
  | nil => cases h
  | cons b members ih =>
    cases members with
    | nil =>
      have heq : a = " | ".intercalate [b] := by
        rw [List.mem_singleton.mp h, String.intercalate_singleton]
      exact Nat.le_of_eq (congrArg (·.toList.length) heq)
    | cons c members =>
      rw [toList_union_cons_cons, List.length_append, List.length_append]
      rcases List.mem_cons.mp h with rfl | h
      · omega
      · have hle := ih h
        omega

/-- The name of a union of several members is longer than theirs. -/
theorem length_lt_union {a : String} {members : List String} (hlength : 2 ≤ members.length)
    (h : a ∈ members) : a.toList.length < (" | ".intercalate members).toList.length := by
  match members, hlength with
  | b :: c :: members, _ =>
    have hbar : bar.length = 3 := rfl
    rw [toList_union_cons_cons, List.length_append, List.length_append]
    rcases List.mem_cons.mp h with rfl | h
    · omega
    · have hle := length_le_union h
      omega

namespace Builder

variable {b b' : Builder} {known keep : String → Prop} {name : String} {shape : Shape}
  {id : TypeId}

/-! ### The invariant -/

/-- A name that the alternatives of a structural union may have: one of the given names, that
of a primitive, or that of lists of anything. -/
def MayJoin (known : String → Prop) (name : String) : Prop :=
  known name ∨ (∃ kind : Primitive, name = kind.name) ∨ name = "Array<any>"

/-- A name is put together from the names of the parts of a body, which are there. -/
structure Labels (known : String → Prop) (b : Builder) (name : String) (shape : Shape) :
    Prop where
  inside : ∀ part ∈ shape.contents, part.index < b.size
  text : ∃ label, b.label? shape = some label ∧ name = label.text
  several : ∀ {ids}, shape = .union ids → 2 ≤ ids.length ∧ ∀ id ∈ ids, MayJoin known (b.name id)

/-- Names are distinct, the given ones are declared, every other one is the label of a body,
and a body that its name is no label of is that of a product or a union. -/
structure Layered (known : String → Prop) (b : Builder) : Prop where
  declared : ∀ {name : String}, known name → ∃ id, b.find? name = some id
  nodup : b.DistinctNames
  labels : ∀ {id : TypeId}, id.index < b.size → ¬ known (b.name id) →
    ∃ shape, b.body? id = some shape ∧ b.Labels known (b.name id) shape
  bodies : ∀ {id : TypeId} {shape : Shape}, b.body? id = some shape →
    (∃ p, shape = .product p) ∨ (∃ ids, shape = .union ids) ∨ b.Labels known (b.name id) shape

theorem Labels.extends (h : b.Labels known name shape) (hext : Extends keep b b') :
    b'.Labels known name shape where
  inside part hpart := Nat.lt_of_lt_of_le (h.inside part hpart) hext.size
  text := by
    obtain ⟨label, hlabel, rfl⟩ := h.text
    exact ⟨label, by rw [label?_extends h.inside hext, hlabel], rfl⟩
  several := by
    rintro ids rfl
    obtain ⟨hlength, hjoin⟩ := h.several rfl
    refine ⟨hlength, fun id hid => ?_⟩
    rw [hext.name (h.inside id hid)]
    exact hjoin id hid

/-- A label is longer than the names of the types that get the same source. -/
theorem Labels.name_lt (h : b.Labels known name shape) {part : TypeId}
    (hpart : part ∈ shape.samePath) : (b.name part).toList.length < name.toList.length := by
  obtain ⟨label, hlabel, rfl⟩ := h.text
  cases shape with
  | nullable inner =>
    cases hlabel
    rw [List.mem_singleton.mp hpart, TypeLabel.text, String.toList_append, String.toList_append,
      List.length_append, List.length_append]
    have hopening : "Nullable<".toList.length = 9 := rfl
    omega
  | union ids =>
    cases hlabel
    have hlength := (h.several rfl).1
    exact length_lt_union (by simpa using hlength) (List.mem_map_of_mem hpart)
  | primitive | array | nameSet | product | inspect => simp [Shape.samePath, label?] at hpart hlabel

theorem Labels.asProduct?_eq_none (h : b.Labels known name shape) : shape.asProduct? = none := by
  obtain ⟨label, hlabel, -⟩ := h.text
  cases shape with
  | product => cases hlabel
  | primitive | array | nullable | nameSet | union | inspect => rfl

/-! ### Growth -/

/-- What a computation leaves that gives out a structural type: a schema of the same kind, with
all that was there, and the type inside. -/
structure Adds (known : String → Prop) (b b' : Builder) (id : TypeId) : Prop where
  layered : b'.Layered known
  extends_ : Extends (fun _ => True) b b'
  inside : id.index < b'.size

/-- A new body for a known name leaves a schema layered. -/
theorem Layered.define (hl : b.Layered known) (hknown : known (b.name id))
    (hshape : (∃ p, shape = .product p) ∨ (∃ ids, shape = .union ids) ∨
      b.Labels known (b.name id) shape) : (Builder.define id shape b).2.Layered known where
  declared hname := (extends_define id shape).declared (hl.declared hname)
  nodup := DistinctNames.define hl.nodup
  labels {id'} hid hunknown := by
    rw [size_define] at hid
    rw [name_define] at hunknown ⊢
    have hne : id ≠ id' := by
      rintro rfl
      exact hunknown hknown
    obtain ⟨shape', hbody, hlabels⟩ := hl.labels hid hunknown
    exact ⟨shape', (body?_define_of_ne hne).trans hbody, hlabels.extends (extends_define id shape)⟩
  bodies {id' shape'} hbody := by
    rw [name_define]
    by_cases heq : id = id'
    · subst heq
      have hinside : id.index < b.size := by
        have hlt := lt_size_of_body? hbody
        rwa [size_define] at hlt
      rw [body?_define_self hinside] at hbody
      cases hbody
      exact hshape.imp_right (.imp_right (·.extends (extends_define id shape)))
    · rw [body?_define_of_ne heq] at hbody
      exact (hl.bodies hbody).imp_right (.imp_right (·.extends (extends_define id shape)))

/-- A new name that is the label of its body leaves a schema layered. -/
theorem Layered.append (hl : b.Layered known) (h : b.Labels known name shape)
    (hnew : b.find? name = none) (structural : Bool) :
    Adds known b (b.append { name, body := some shape, structural }) ⟨b.size⟩ := by
  set c := b.append { name, body := some shape, structural }
  have hext : Extends (fun _ => True) b c := extends_append _
  have hname : c.name ⟨b.size⟩ = name := name_append_size _
  have hbody : c.body? ⟨b.size⟩ = some shape := body?_append_size _
  have hsize : c.size = b.size + 1 := size_append _
  refine ⟨⟨fun hname => hext.declared (hl.declared hname), DistinctNames.append hl.nodup hnew,
    ?_, ?_⟩, hext, by show b.size < c.size; omega⟩
  · intro id hid hunknown
    rcases lt_or_eq_of_lt_size_append hid with hlt | rfl
    · rw [hext.name hlt] at hunknown ⊢
      obtain ⟨shape', hbody', hlabels⟩ := hl.labels hlt hunknown
      exact ⟨shape', hext.body hbody' trivial, hlabels.extends hext⟩
    · rw [hname]
      exact ⟨shape, hbody, h.extends hext⟩
  · intro id shape' hbody'
    rcases lt_or_eq_of_lt_size_append (lt_size_of_body? hbody') with hlt | rfl
    · have hold : b.body? id = some shape' := by
        rw [← hbody', body?, body?, declaration?_append_of_lt hlt]
      rw [hext.name hlt]
      exact (hl.bodies hold).imp_right (.imp_right (·.extends hext))
    · rw [hbody] at hbody'
      cases hbody'
      rw [hname]
      exact .inr (.inr (h.extends hext))

/-- A structural type is given out under its name. The body is the first one of that name. -/
theorem Layered.intern (hl : b.Layered known) (h : b.Labels known name shape)
    (hrun : Builder.intern name shape b = (id, b')) : Adds known b b' id ∧ b'.name id = name := by
  cases hfind : b.find? name with
  | none =>
    rw [intern_of_find?_eq_none hfind] at hrun
    cases hrun
    exact ⟨hl.append h hfind _, name_append_size _⟩
  | some found =>
    obtain ⟨hinside, rfl⟩ := find?_eq_some hfind
    cases hbody : b.body? found with
    | some shape' =>
      rw [intern_of_find?_eq_some hfind hbody] at hrun
      obtain ⟨rfl, rfl⟩ := Prod.mk.inj hrun
      exact ⟨⟨hl, .refl b, hinside⟩, rfl⟩
    | none =>
      -- Only the names of the grammar are ever without a body.
      rw [intern_of_body?_eq_none hfind hbody] at hrun
      obtain ⟨rfl, rfl⟩ := Prod.mk.inj hrun
      have hknown : known (b.name found) := by
        by_contra hunknown
        obtain ⟨shape', hbody', -⟩ := hl.labels hinside hunknown
        rw [hbody] at hbody'
        cases hbody'
      have hext := extends_define (b := b) found shape
      refine ⟨⟨hl.define hknown (.inr (.inr h)), ⟨hext.size, hext.name, ?_⟩, ?_⟩, name_define⟩
      · intro id' shape' hbody' _
        rw [body?_define_of_ne]
        · exact hbody'
        · rintro rfl
          rw [hbody] at hbody'
          cases hbody'
      · rw [size_define]
        exact hinside

/-! ### Forms of structural types -/

theorem Layered.primitive (hl : b.Layered known) {kind : Primitive}
    (hrun : Builder.primitive kind b = (id, b')) :
    Adds known b b' id ∧ b'.name id = kind.name :=
  hl.intern ⟨by simp [Shape.contents], ⟨.primitive kind, rfl, rfl⟩, fun h => by cases h⟩ hrun

theorem Layered.arrayOf (hl : b.Layered known) {item : TypeId} (hitem : item.index < b.size)
    (hrun : Builder.arrayOf item b = (id, b')) :
    Adds known b b' id ∧ b'.name id = "Array<" ++ b.name item ++ ">" :=
  hl.intern ⟨by simpa [Shape.contents] using hitem, ⟨.array (b.name item), rfl, rfl⟩,
    fun h => by cases h⟩ hrun

theorem Layered.unionOf (hl : b.Layered known) {members : List TypeId} (hne : members ≠ [])
    (hmembers : ∀ m ∈ members, m.index < b.size ∧ MayJoin known (b.name m))
    (hrun : Builder.unionOf members b = (id, b')) : Adds known b b' id := by
  obtain ⟨-, hmem⟩ := distinct_spec members
  have hin : ∀ m ∈ distinct members, m.index < b.size ∧ MayJoin known (b.name m) :=
    fun m hm => hmembers m ((hmem m).mp hm)
  rcases unionOf_cases members b with ⟨single, hd, hsingle⟩ | ⟨hlength, hintern⟩
  · cases hsingle.symm.trans hrun
    rw [hd] at hin
    exact ⟨hl, .refl b, (hin id (by simp)).1⟩
  · have hlabels : b.Labels known (TypeLabel.union ((distinct members).map b.name)).text
        (.union (distinct members)) := by
      refine ⟨fun part hpart => (hin part hpart).1, ⟨_, rfl, rfl⟩, fun heq => ?_⟩
      cases heq
      exact ⟨two_le_length_distinct hne hlength, fun m hm => (hin m hm).2⟩
    exact (hl.intern hlabels (hintern.symm.trans hrun)).1

/-! ### Taking `null` -/

/-- None of the given names is one that a type with `null` gets. -/
def NullFree (known : String → Prop) : Prop :=
  ∀ {name : String}, known name → name ≠ Primitive.null.name ∧
    ¬ "Nullable<".toList <+: name.toList

/-- A type takes `null`. -/
def TakesNull (b : Builder) (id : TypeId) : Prop :=
  (∃ inner, b.body? id = some (.nullable inner)) ∨ b.body? id = some (.primitive .null)

/-- A union has the name of a nullable only if one of the given names looks so. -/
theorem not_labels_union_of_nullFree (hfree : NullFree known) {ids : List TypeId}
    (hname : "Nullable<".toList <+: name.toList) : ¬ b.Labels known name (.union ids) := by
  intro h
  obtain ⟨hlength, hjoin⟩ := h.several rfl
  obtain ⟨label, hlabel, rfl⟩ := h.text
  cases hlabel
  match ids, hlength with
  | m₁ :: m₂ :: rest, _ =>
    obtain ⟨tail, htail⟩ := hname
    rw [TypeLabel.text, List.map_cons, List.map_cons, toList_union_cons_cons] at htail
    -- A bar begins with a blank, so the opening lies within the first member.
    have hfirst : "Nullable<".toList <+: (b.name m₁).toList := by
      rcases List.append_eq_append_iff.mp htail with ⟨c, hc, -⟩ | ⟨c, hc, hbar⟩
      · exact ⟨c, hc.symm⟩
      · cases c with
        | nil => exact ⟨[], by simpa using hc⟩
        | cons x c =>
          have hx : ' ' = x := (List.cons.inj hbar).1
          have hmem : ' ' ∈ "Nullable<".toList := by
            rw [hc, hx]
            simp
          exact absurd hmem (by decide)
    rcases hjoin m₁ List.mem_cons_self with hknown | ⟨kind, hkind⟩ | harray
    · exact (hfree hknown).2 hfirst
    · rw [hkind] at hfirst
      exact absurd hfirst (by cases kind <;> decide)
    · rw [harray] at hfirst
      exact absurd hfirst (by decide)

/-- A type whose name is that of a nullable is one. -/
theorem Layered.takesNull_of_name (hl : b.Layered known) (hfree : NullFree known)
    (hinside : id.index < b.size) {inner : String}
    (hname : b.name id = "Nullable<" ++ inner ++ ">") :
    ¬ known (b.name id) ∧ b.TakesNull id := by
  have hprefix : "Nullable<".toList <+: (b.name id).toList := by
    rw [hname, String.toList_append, String.toList_append, List.append_assoc]
    exact List.prefix_append _ _
  have hunknown : ¬ known (b.name id) := fun hknown => (hfree hknown).2 hprefix
  refine ⟨hunknown, ?_⟩
  obtain ⟨shape, hbody, hlabels⟩ := hl.labels hinside hunknown
  obtain ⟨label, hlabel, htext⟩ := hlabels.text
  cases shape with
  | nullable inner => exact .inl ⟨inner, hbody⟩
  | union ids => exact absurd hlabels (not_labels_union_of_nullFree hfree hprefix)
  | primitive kind =>
    cases hlabel
    rw [htext] at hprefix
    exact absurd hprefix (by cases kind <;> decide)
  | array item =>
    cases hlabel
    rw [htext, TypeLabel.text, String.toList_append, String.toList_append] at hprefix
    obtain ⟨tail, htail⟩ := hprefix
    simp at htail
  | nameSet | product | inspect => cases hlabel

/-- A type that takes `null` when it is asked for does not get its body from the grammar. -/
theorem Layered.unknown_of_takesNull (hl : b.Layered known) (hfree : NullFree known)
    (h : b.TakesNull id) : ¬ known (b.name id) := by
  intro hknown
  obtain ⟨hnull, hprefix⟩ := hfree hknown
  rcases h with ⟨inner, hbody⟩ | hbody
  · rcases hl.bodies hbody with ⟨_, h⟩ | ⟨_, h⟩ | hlabels
    · cases h
    · cases h
    · obtain ⟨label, hlabel, htext⟩ := hlabels.text
      cases hlabel
      refine hprefix ?_
      rw [htext, TypeLabel.text, String.toList_append, String.toList_append, List.append_assoc]
      exact List.prefix_append _ _
  · rcases hl.bodies hbody with ⟨_, h⟩ | ⟨_, h⟩ | hlabels
    · cases h
    · cases h
    · obtain ⟨label, hlabel, htext⟩ := hlabels.text
      cases hlabel
      exact hnull htext

/-- A type with `null` added is given out; it takes `null` for good unless a given name is in
the way. -/
theorem Layered.nullable (hl : b.Layered known) {inner : TypeId} (hinner : inner.index < b.size)
    (hrun : Builder.nullable inner b = (id, b')) :
    Adds known b b' id ∧ (NullFree known → ¬ known (b'.name id) ∧ b'.TakesNull id) := by
  rcases nullable_cases inner b with ⟨hself, htakes⟩ | hintern
  · cases hself.symm.trans hrun
    exact ⟨⟨hl, .refl b, hinner⟩, fun hfree => ⟨hl.unknown_of_takesNull hfree htakes, htakes⟩⟩
  · obtain ⟨hadds, hname⟩ := hl.intern ⟨by simpa [Shape.contents] using hinner,
      ⟨.nullable (b.name inner), rfl, rfl⟩, fun h => by cases h⟩ (hintern.symm.trans hrun)
    exact ⟨hadds, fun hfree => hadds.layered.takesNull_of_name hfree hadds.inside hname⟩

end Builder

end TypedTree
