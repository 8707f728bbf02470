/-
Calls that build a schema.

Main statements:

* `Builder.Operation` — what can be asked of a schema under construction, `Builder.Calls` — calls
  one after the other, with the handles they give;
* `FreeName` — a name that may be declared: it is no name of a structural type, nor part of one;
* `Builder.Structured` — what all calls keep: names are distinct, and every type that was not
  declared by its name has a body that its name is put together from;
* `Builder.Structured.run` — what one call makes, `Builder.Calls.made` — what each of several calls
  has made in the end.

Design notes: what a call has made is said by names, since names stay. The body behind a name may
have come from an earlier call with other arguments.
-/
import TypedTree.Proofs.Synthesis.Growth

namespace TypedTree

/-! ### Names and bodies given by hand -/

/-- A name that may be declared by hand: it is neither that of a structural type nor part of one. -/
structure FreeName (name : String) : Prop where
  nonempty : name ≠ ""
  noOpening : '<' ∉ name.toList
  noClosing : '>' ∉ name.toList
  noBar : '|' ∉ name.toList
  notPrimitive : ∀ kind : Primitive, name ≠ kind.name
  notNameSet : name ≠ "StringSet"

/-- A body that is given to a type by hand. -/
def Shape.IsNamed (shape : Shape) : Prop :=
  (∃ p, shape = .product p) ∨ (∃ alternatives, shape = .union alternatives) ∨
    ∃ i, shape = .inspect i

namespace Builder

/-! ### Calls -/

/-- A type was declared by its name. -/
def ByHand (b : Builder) (id : TypeId) : Prop :=
  ∃ d, b.declaration? id = some d ∧ d.structural = false

/-- What can be asked of a schema under construction. -/
inductive Operation where
  | declare (name : String)
  | primitive (kind : Primitive)
  | arrayOf (item : TypeId)
  | nullable (inner : TypeId)
  | nameSet
  | unionOf (members : List TypeId)
  | define (id : TypeId) (shape : Shape)
  | named (name : String) (shape : Shape)

namespace Operation

/-- The computation that is asked for, with the handle it gives. -/
def run : Operation → Building TypeId
  | declare name => Builder.declare name
  | primitive kind => Builder.primitive kind
  | arrayOf item => Builder.arrayOf item
  | nullable inner => Builder.nullable inner
  | nameSet => Builder.nameSet
  | unionOf members => Builder.unionOf members
  | define id shape => do
    Builder.define id shape
    return id
  | named name shape => Builder.named name shape

/-- A call may be made: handles are there, names are free, and only types that were declared by
their names are given bodies. -/
def Allowed (b : Builder) : Operation → Prop
  | declare name => FreeName name
  | primitive _ | nameSet => True
  | arrayOf item => item.index < b.size
  | nullable inner => inner.index < b.size
  | unionOf members => ∀ m ∈ members, m.index < b.size
  | define id shape => b.ByHand id ∧ shape.IsNamed
  | named name shape => FreeName name ∧ shape.IsNamed

end Operation

/-- Calls one after the other, each with the handle it gave. -/
inductive Calls : Builder → List (Operation × TypeId) → Builder → Prop
  | nil (b : Builder) : Calls b [] b
  | cons {b b' b'' : Builder} {op : Operation} {id : TypeId} {log : List (Operation × TypeId)}
      (allowed : op.Allowed b) (run : op.run b = (id, b')) (rest : Calls b' log b'') :
      Calls b ((op, id) :: log) b''

variable {b b' b'' : Builder} {id : TypeId} {name : String} {shape : Shape}

/-! ### The invariant -/

/-- The name of a structural type with the given body. -/
def textOf? (b : Builder) (shape : Shape) : Option String :=
  match shape with
  | .nameSet => some "StringSet"
  | shape => (b.label? shape).map TypeLabel.text

/-- A text is put together from the names of the parts of a body, and no union has one part only. -/
structure Spells (b : Builder) (name : String) (shape : Shape) : Prop where
  text : b.textOf? shape = some name
  several : ∀ {ids}, shape = .union ids → ids.length ≠ 1

/-- Names are distinct; types that were declared have free names, and bodies as they are given by
hand; every other type has a body that its name is put together from, and whose parts came before
it. -/
structure Structured (b : Builder) : Prop where
  nodup : b.DistinctNames
  free : ∀ {id}, b.ByHand id → FreeName (b.name id)
  named : ∀ {id shape}, b.body? id = some shape → FreeName (b.name id) → shape.IsNamed
  structural : ∀ {id}, id.index < b.size → ¬ FreeName (b.name id) →
    ∃ shape, b.body? id = some shape ∧ b.Spells (b.name id) shape ∧
      ∀ part ∈ shape.contents, part.index < id.index

theorem textOf?_extends {keep : String → Prop} (h : ∀ part ∈ shape.contents, part.index < b.size)
    (hext : Extends keep b b') : b'.textOf? shape = b.textOf? shape := by
  cases shape with
  | nameSet => rfl
  | primitive | array | nullable | product | union | inspect =>
    rw [textOf?, textOf?, label?_extends h hext] <;> simp

theorem Spells.extends {keep : String → Prop} (h : b.Spells name shape)
    (hparts : ∀ part ∈ shape.contents, part.index < b.size) (hext : Extends keep b b') :
    b'.Spells name shape where
  text := (textOf?_extends hparts hext).trans h.text
  several := h.several

/-- The name of a structural type is not free. -/
theorem Spells.not_freeName (h : b.Spells name shape) : ¬ FreeName name := by
  intro hfree
  have htext := h.text
  cases shape with
  | primitive kind =>
    cases htext
    exact hfree.notPrimitive kind rfl
  | array item =>
    cases htext
    exact hfree.noOpening (TypeLabel.mem_opening_of_array _)
  | nullable inner =>
    cases htext
    exact hfree.noOpening (TypeLabel.mem_opening_of_nullable _)
  | nameSet =>
    cases htext
    exact hfree.notNameSet rfl
  | union ids =>
    cases htext
    rcases ids with _ | ⟨m, _ | ⟨n, rest⟩⟩
    · exact hfree.nonempty rfl
    · exact h.several rfl rfl
    · refine hfree.noBar ?_
      rw [TypeLabel.text_union, List.map_cons, List.map_cons, toList_union_cons_cons]
      simp [bar_eq]
  | product | inspect => cases htext

theorem structured_empty : ({} : Builder).Structured where
  nodup hid := absurd hid (Nat.not_lt_zero _)
  free := by
    rintro id ⟨d, hd, -⟩
    cases hd
  named hbody := absurd (lt_size_of_body? hbody) (Nat.not_lt_zero _)
  structural hid := absurd hid (Nat.not_lt_zero _)

/-! ### One call -/

/-- A schema has grown: it is structured again, and structural types keep their bodies. -/
structure Grown (b b' : Builder) : Prop where
  structured : b'.Structured
  extends_ : Extends (¬ FreeName ·) b b'

theorem Structured.refl (hb : b.Structured) : Grown b b := ⟨hb, .refl b⟩

theorem Grown.trans (h : Grown b b') (h' : Grown b' b'') : Grown b b'' :=
  ⟨h'.structured, h.extends_.trans h'.extends_⟩

theorem byHand_append_iff {d : Declaration} (hid : id.index < b.size) :
    (b.append d).ByHand id ↔ b.ByHand id := by
  rw [ByHand, declaration?_append_of_lt hid, ByHand]

/-- A new type leaves a schema structured, if it is declared by a free name, or has a body that its
name is put together from. -/
theorem Structured.append (hb : b.Structured) {d : Declaration} (hnew : b.find? d.name = none)
    (hd : (d.structural = false ∧ FreeName d.name ∧ d.body = none) ∨
      (d.structural = true ∧ ∃ shape, d.body = some shape ∧ b.Spells d.name shape ∧
        ∀ part ∈ shape.contents, part.index < b.size)) : Grown b (b.append d) := by
  have hext : Extends (¬ FreeName ·) b (b.append d) := extends_append d
  have hold : ∀ {id}, id.index < b.size → (b.append d).body? id = b.body? id := fun hid => by
    rw [body?, body?, declaration?_append_of_lt hid]
  have hinside : ∀ {id}, (b.append d).ByHand id → id.index < (b.append d).size := by
    rintro id ⟨d', hd', -⟩
    exact (List.getElem?_eq_some_iff.mp hd').1
  -- Of each of the three, the types that were there before are settled by `hb`, the new one by
  -- `hd`.
  refine ⟨⟨DistinctNames.append hb.nodup hnew, ?_, ?_, ?_⟩, hext⟩
  · intro id hhand
    rcases lt_or_eq_of_lt_size_append (hinside hhand) with hid | rfl
    · rw [hext.name hid]
      exact hb.free ((byHand_append_iff hid).mp hhand)
    · obtain ⟨d', hd', hflag⟩ := hhand
      rw [declaration?_append_size] at hd'
      cases hd'
      rcases hd with ⟨-, hfree, -⟩ | ⟨hstructural, -⟩
      · rwa [name_append_size]
      · rw [hstructural] at hflag
        cases hflag
  · intro id shape hbody hfree
    rcases lt_or_eq_of_lt_size_append (lt_size_of_body? hbody) with hid | rfl
    · rw [hold hid] at hbody
      rw [hext.name hid] at hfree
      exact hb.named hbody hfree
    · rw [body?_append_size] at hbody
      rw [name_append_size] at hfree
      rcases hd with ⟨-, -, hnone⟩ | ⟨-, shape', -, hspells, -⟩
      · rw [hnone] at hbody
        cases hbody
      · exact absurd hfree hspells.not_freeName
  · intro id hid hfree
    rcases lt_or_eq_of_lt_size_append hid with hid | rfl
    · rw [hext.name hid] at hfree ⊢
      obtain ⟨shape, hbody, hspells, hparts⟩ := hb.structural hid hfree
      exact ⟨shape, (hold hid).trans hbody,
        hspells.extends (fun part hpart => Nat.lt_trans (hparts part hpart) hid) hext, hparts⟩
    · rw [name_append_size] at hfree ⊢
      rcases hd with ⟨-, hfree', -⟩ | ⟨-, shape, hbody, hspells, hparts⟩
      · exact absurd hfree' hfree
      · exact ⟨shape, (body?_append_size d).trans hbody, hspells.extends hparts hext, hparts⟩

/-- A body given by hand to a type with a free name leaves a schema structured. -/
theorem Structured.define (hb : b.Structured) (hfree : FreeName (b.name id))
    (hshape : shape.IsNamed) : Grown b (Builder.define id shape b).2 := by
  have hext : Extends (¬ FreeName ·) b (Builder.define id shape b).2 := by
    refine (extends_define id shape).mono ?_
    rintro name hname rfl
    exact hname hfree
  refine ⟨⟨DistinctNames.define hb.nodup, ?_, ?_, ?_⟩, hext⟩
  · rintro id' ⟨d, hd, hflag⟩
    rw [name_define]
    refine hb.free ?_
    rw [declaration?_define] at hd
    split at hd
    · obtain ⟨d', hd', rfl⟩ := Option.map_eq_some_iff.mp hd
      exact ⟨d', hd', hflag⟩
    · exact ⟨d, hd, hflag⟩
  · intro id' shape' hbody hfree'
    rw [name_define] at hfree'
    by_cases heq : id = id'
    · subst heq
      have hid := lt_size_of_body? hbody
      rw [size_define] at hid
      rw [body?_define_self hid] at hbody
      cases hbody
      exact hshape
    · rw [body?_define_of_ne heq] at hbody
      exact hb.named hbody hfree'
  · intro id' hid hfree'
    rw [size_define] at hid
    rw [name_define] at hfree' ⊢
    obtain ⟨shape', hbody, hspells, hparts⟩ := hb.structural hid hfree'
    exact ⟨shape', hext.body hbody hfree',
      hspells.extends (fun part hpart => Nat.lt_trans (hparts part hpart) hid) hext, hparts⟩

/-- A structural type is given out under its name, with the first body of that name. -/
theorem Structured.intern (hb : b.Structured) (h : b.Spells name shape)
    (hparts : ∀ part ∈ shape.contents, part.index < b.size)
    (hrun : Builder.intern name shape b = (id, b')) :
    Grown b b' ∧ id.index < b'.size ∧ b'.name id = name := by
  cases hfind : b.find? name with
  | some found =>
    obtain ⟨hid, rfl⟩ := find?_eq_some hfind
    obtain ⟨shape', hbody, -⟩ := hb.structural hid h.not_freeName
    rw [intern_of_find?_eq_some hfind hbody] at hrun
    cases hrun
    exact ⟨hb.refl, hid, rfl⟩
  | none =>
    rw [intern_of_find?_eq_none hfind] at hrun
    cases hrun
    refine ⟨hb.append hfind (.inr ⟨rfl, shape, rfl, h, hparts⟩), ?_, name_append_size _⟩
    rw [size_append]
    exact Nat.lt_succ_self _

/-- A free name is declared. -/
theorem Structured.declare (hb : b.Structured) (hfree : FreeName name)
    (hrun : Builder.declare name b = (id, b')) : Grown b b' ∧ b'.name id = name := by
  cases hfind : b.find? name with
  | some found =>
    rw [declare_of_find? hfind] at hrun
    cases hrun
    exact ⟨hb.refl, (find?_eq_some hfind).2⟩
  | none =>
    rw [declare_of_find?_eq_none hfind] at hrun
    cases hrun
    exact ⟨hb.append hfind (.inl ⟨rfl, hfree, rfl⟩), name_append_size _⟩

/-! ### What calls have made -/

/-- What a call has made, by names. A nullable is the type itself where `null` is there already,
and the union of one member is the member. -/
def Operation.Made (b : Builder) (id : TypeId) : Operation → Prop
  | arrayOf item => item.index < b.size ∧ id.index < b.size ∧
    b.name id = "Array<" ++ b.name item ++ ">"
  | nullable inner =>
    (id = inner ∧ ((∃ i, b.body? id = some (.nullable i)) ∨ b.body? id = some (.primitive .null))) ∨
      (inner.index < b.size ∧ id.index < b.size ∧ b.name id = "Nullable<" ++ b.name inner ++ ">")
  | unionOf members => distinct members = [id] ∨
    ((∀ m ∈ distinct members, m.index < b.size) ∧ (distinct members).length ≠ 1 ∧
      id.index < b.size ∧ b.name id = " | ".intercalate ((distinct members).map b.name))
  | declare _ | primitive _ | nameSet | define _ _ | named _ _ => True

/-- What has been made stays, since names and the bodies of structural types do. -/
theorem Operation.Made.extends {op : Operation} (hb : b.Structured) (h : op.Made b id)
    (hext : Extends (¬ FreeName ·) b b') : op.Made b' id := by
  have hinside : ∀ {id : TypeId}, id.index < b.size → id.index < b'.size :=
    fun hid => Nat.lt_of_lt_of_le hid hext.size
  have hkept : ∀ {shape : Shape}, ¬ shape.IsNamed → b.body? id = some shape →
      b'.body? id = some shape :=
    fun hshape hbody => hext.body hbody fun hfree => hshape (hb.named hbody hfree)
  cases op with
  | arrayOf item =>
    obtain ⟨hitem, hid, hname⟩ := h
    exact ⟨hinside hitem, hinside hid, by rw [hext.name hid, hext.name hitem, hname]⟩
  | nullable inner =>
    rcases h with ⟨hself, ⟨i, hbody⟩ | hbody⟩ | ⟨hinner, hid, hname⟩
    · exact .inl ⟨hself, .inl ⟨i, hkept (by simp [Shape.IsNamed]) hbody⟩⟩
    · exact .inl ⟨hself, .inr (hkept (by simp [Shape.IsNamed]) hbody)⟩
    · exact .inr ⟨hinside hinner, hinside hid, by rw [hext.name hid, hext.name hinner, hname]⟩
  | unionOf members =>
    rcases h with hself | ⟨hmembers, hlength, hid, hname⟩
    · exact .inl hself
    · refine .inr ⟨fun m hm => hinside (hmembers m hm), hlength, hinside hid, ?_⟩
      rw [hext.name hid, map_name_eq hmembers hext, hname]
  | declare | primitive | nameSet | define | named => trivial

section

variable (hb : b.Structured)
include hb

theorem Structured.arrayOf {item : TypeId} (hitem : item.index < b.size)
    (hrun : Builder.arrayOf item b = (id, b')) :
    Grown b b' ∧ (Operation.arrayOf item).Made b' id := by
  have hspells : b.Spells ("Array<" ++ b.name item ++ ">") (.array item) :=
    ⟨rfl, fun h => by cases h⟩
  obtain ⟨hgrown, hid, hname⟩ := hb.intern hspells (by simpa [Shape.contents] using hitem) hrun
  refine ⟨hgrown, Nat.lt_of_lt_of_le hitem hgrown.extends_.size, hid, ?_⟩
  rw [hgrown.extends_.name hitem, hname]

theorem Structured.nullable {inner : TypeId} (hinner : inner.index < b.size)
    (hrun : Builder.nullable inner b = (id, b')) :
    Grown b b' ∧ (Operation.nullable inner).Made b' id := by
  rcases nullable_cases inner b with ⟨hself, htakes⟩ | hintern
  · cases hself.symm.trans hrun
    exact ⟨hb.refl, .inl ⟨rfl, htakes⟩⟩
  · have hspells : b.Spells ("Nullable<" ++ b.name inner ++ ">") (.nullable inner) :=
      ⟨rfl, fun h => by cases h⟩
    obtain ⟨hgrown, hid, hname⟩ := hb.intern hspells (by simpa [Shape.contents] using hinner)
      (hintern.symm.trans hrun)
    refine ⟨hgrown, .inr ⟨Nat.lt_of_lt_of_le hinner hgrown.extends_.size, hid, ?_⟩⟩
    rw [hgrown.extends_.name hinner, hname]

theorem Structured.unionOf {members : List TypeId} (hmembers : ∀ m ∈ members, m.index < b.size)
    (hrun : Builder.unionOf members b = (id, b')) :
    Grown b b' ∧ (Operation.unionOf members).Made b' id := by
  have hin : ∀ m ∈ distinct members, m.index < b.size :=
    fun m hm => hmembers m (((distinct_spec members).2 m).mp hm)
  rcases unionOf_cases members b with ⟨single, hd, hsingle⟩ | ⟨hlength, hintern⟩
  · cases hsingle.symm.trans hrun
    exact ⟨hb.refl, .inl hd⟩
  · have hspells : b.Spells (" | ".intercalate ((distinct members).map b.name))
        (.union (distinct members)) := by
      refine ⟨rfl, ?_⟩
      rintro ids ⟨⟩
      exact hlength
    obtain ⟨hgrown, hid, hname⟩ := hb.intern hspells hin (hintern.symm.trans hrun)
    refine ⟨hgrown, .inr ⟨fun m hm => Nat.lt_of_lt_of_le (hin m hm) hgrown.extends_.size, hlength,
      hid, ?_⟩⟩
    rw [map_name_eq hin hgrown.extends_, hname]

/-- One call leaves a schema structured, and makes what it should. -/
theorem Structured.run {op : Operation} (hallowed : op.Allowed b) (hrun : op.run b = (id, b')) :
    Grown b b' ∧ op.Made b' id := by
  cases op with
  | declare name => exact ⟨(hb.declare hallowed hrun).1, trivial⟩
  | primitive kind =>
    have hspells : b.Spells kind.name (.primitive kind) := ⟨rfl, fun h => by cases h⟩
    exact ⟨(hb.intern hspells (by simp [Shape.contents]) hrun).1, trivial⟩
  | arrayOf item => exact hb.arrayOf hallowed hrun
  | nullable inner => exact hb.nullable hallowed hrun
  | nameSet =>
    have hspells : b.Spells "StringSet" .nameSet := ⟨rfl, fun h => by cases h⟩
    exact ⟨(hb.intern hspells (by simp [Shape.contents]) hrun).1, trivial⟩
  | unionOf members => exact hb.unionOf hallowed hrun
  | define id' shape =>
    obtain ⟨hhand, hshape⟩ := hallowed
    cases hrun
    exact ⟨hb.define (hb.free hhand) hshape, trivial⟩
  | named name shape =>
    obtain ⟨hfree, hshape⟩ := hallowed
    cases hdeclare : Builder.declare name b with
    | mk found b₁ =>
      cases (named_of_declare hdeclare).symm.trans hrun
      obtain ⟨hgrown, hname⟩ := hb.declare hfree hdeclare
      exact ⟨hgrown.trans (hgrown.structured.define (hname ▸ hfree) hshape), trivial⟩

end

/-- What each of several calls has made is there in the end. -/
theorem Calls.made {log : List (Operation × TypeId)} (h : Calls b log b') (hb : b.Structured) :
    Grown b b' ∧ ∀ op id, (op, id) ∈ log → op.Made b' id := by
  induction h with
  | nil b => exact ⟨hb.refl, fun _ _ hmem => by cases hmem⟩
  | cons hallowed hrun _ ih =>
    obtain ⟨hgrown, hmade⟩ := hb.run hallowed hrun
    obtain ⟨hgrown', hall⟩ := ih hgrown.structured
    refine ⟨hgrown.trans hgrown', fun op id hmem => ?_⟩
    rcases List.mem_cons.mp hmem with heq | hmem
    · cases heq
      exact hmade.extends hgrown.structured hgrown'.extends_
    · exact hall op id hmem

end Builder

end TypedTree
