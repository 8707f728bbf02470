/-
How a schema grows.

A schema under construction is only added to: handles keep their names, and types that are
finished keep their bodies. Main statements:

* `Builder.Extends` — what stays when a schema grows;
* `Builder.Sound` — names are distinct, and the name of every structural type tells its
  body;
* `Builder.Sound.intern` — a structural type is given out under its name, with its body;
* `Builder.Sound.arrayOf`, `Builder.Sound.unionOf` and their neighbours — the same for each
  form.
-/
import Mathlib.Data.List.Nodup
import TypedTree.Proofs.Synthesis.Label
import TypedTree.Proofs.Traversal
import TypedTree.Schema.Registry

namespace TypedTree

namespace Builder

variable {b b' b'' : Builder}

/-! ### Look-up -/

theorem find?_eq_some {name : String} {id : TypeId} (h : b.find? name = some id) :
    id.index < b.size ∧ b.name id = name := by
  rw [find?_eq] at h
  obtain ⟨i, hi, rfl⟩ := Option.map_eq_some_iff.mp h
  obtain ⟨hlt, heq, -⟩ := List.findIdx?_eq_some_iff_getElem.mp hi
  rw [List.length_map] at hlt
  refine ⟨hlt, ?_⟩
  rw [Builder.name, declaration?, List.getElem?_eq_getElem hlt]
  simpa using heq

theorem find?_eq_none {name : String} (h : b.find? name = none) {id : TypeId}
    (hid : id.index < b.size) : b.name id ≠ name := by
  rw [find?_eq, Option.map_eq_none_iff, List.findIdx?_eq_none_iff] at h
  rw [Builder.name, declaration?, List.getElem?_eq_getElem hid]
  simpa using h _ (List.mem_map_of_mem (List.getElem_mem hid))

theorem size_append (d : Declaration) : (b.append d).size = b.size + 1 := by
  rw [size, append, List.length_append]
  rfl

theorem declaration?_append_of_lt {d : Declaration} {id : TypeId} (h : id.index < b.size) :
    (b.append d).declaration? id = b.declaration? id := List.getElem?_append_left h

theorem declaration?_append_size (d : Declaration) :
    (b.append d).declaration? ⟨b.size⟩ = some d := List.getElem?_concat_length

/-- A new name is found under the next handle. -/
theorem find?_append_self {d : Declaration} (h : b.find? d.name = none) :
    (b.append d).find? d.name = some ⟨b.size⟩ := by
  have hold : b.table.entries.lookup d.name = none := h
  rw [find?, NameTable.find?, append, List.lookup_append, hold, List.lookup_cons_self,
    Option.none_or]

theorem declaration?_define {id id' : TypeId} {shape : Shape} :
    (define id shape b).2.declaration? id' =
      if id = id' then (b.declaration? id').map fun d => { d with body := some shape }
      else b.declaration? id' := by
  rw [declaration?, declaration?, define, List.getElem?_modify]
  by_cases h : id = id'
  · subst h
    simp
  · have hne : id.index ≠ id'.index := fun heq => h (by cases id; cases id'; cases heq; rfl)
    rw [if_neg h]
    simp [hne]

theorem size_define {id : TypeId} {shape : Shape} : (define id shape b).2.size = b.size := by
  rw [size, define, List.length_modify]
  rfl

theorem name_define {id id' : TypeId} {shape : Shape} :
    (define id shape b).2.name id' = b.name id' := by
  rw [Builder.name, Builder.name, declaration?_define]
  split
  · rw [Option.map_map]
    rfl
  · rfl

theorem body?_define_self {id : TypeId} {shape : Shape} (h : id.index < b.size) :
    (define id shape b).2.body? id = some shape := by
  rw [body?, declaration?_define, if_pos rfl, declaration?, List.getElem?_eq_getElem h]
  rfl

theorem body?_define_of_ne {id id' : TypeId} {shape : Shape} (h : id ≠ id') :
    (define id shape b).2.body? id' = b.body? id' := by
  rw [body?, body?, declaration?_define, if_neg h]

/-! ### Growth -/

/-- What stays when a schema grows: handles keep their names, and the types of the given
names keep their bodies. -/
structure Extends (keep : String → Prop) (b b' : Builder) : Prop where
  size : b.size ≤ b'.size
  name : ∀ {id}, id.index < b.size → b'.name id = b.name id
  body : ∀ {id shape}, b.body? id = some shape → keep (b.name id) → b'.body? id = some shape

variable {keep keep' : String → Prop}

theorem lt_size_of_body? {id : TypeId} {shape : Shape} (h : b.body? id = some shape) :
    id.index < b.size := by
  rcases Nat.lt_or_ge id.index b.size with hlt | hge
  · exact hlt
  · rw [body?, declaration?, List.getElem?_eq_none hge] at h
    cases h

theorem Extends.refl (b : Builder) : Extends keep b b := ⟨Nat.le_refl _, fun _ => rfl, fun h _ => h⟩

theorem Extends.trans (h : Extends keep b b') (h' : Extends keep b' b'') :
    Extends keep b b'' where
  size := Nat.le_trans h.size h'.size
  name hid := (h'.name (Nat.lt_of_lt_of_le hid h.size)).trans (h.name hid)
  body hbody hkeep := by
    refine h'.body (h.body hbody hkeep) ?_
    rwa [h.name (lt_size_of_body? hbody)]

theorem Extends.mono (h : Extends keep b b') (hkeep : ∀ name, keep' name → keep name) :
    Extends keep' b b' := ⟨h.size, h.name, fun hbody hk => h.body hbody (hkeep _ hk)⟩

theorem extends_append (d : Declaration) : Extends keep b (b.append d) where
  size := by
    rw [size_append]
    omega
  name hid := by rw [Builder.name, Builder.name, declaration?_append_of_lt hid]
  body hbody _ := by
    rw [body?, declaration?_append_of_lt (lt_size_of_body? hbody)]
    exact hbody

/-- A name that is declared stays so. -/
theorem Extends.declared (h : Extends keep b b') {name : String}
    (hname : ∃ id, b.find? name = some id) : ∃ id, b'.find? name = some id := by
  obtain ⟨id, hid⟩ := hname
  obtain ⟨hlt, hname⟩ := find?_eq_some hid
  cases hfind : b'.find? name with
  | some id' => exact ⟨id', rfl⟩
  | none =>
    refine absurd ?_ (find?_eq_none hfind (Nat.lt_of_lt_of_le hlt h.size))
    rw [h.name hlt, hname]

theorem extends_define (id : TypeId) (shape : Shape) :
    Extends (· ≠ b.name id) b (define id shape b).2 where
  size := Nat.le_of_eq size_define.symm
  name _ := name_define
  body hbody hne := by
    rw [body?_define_of_ne]
    · exact hbody
    · rintro rfl
      exact hne rfl

/-! ### New names -/

theorem name_append_size (d : Declaration) : (b.append d).name ⟨b.size⟩ = d.name := by
  rw [Builder.name, declaration?_append_size]
  rfl

theorem body?_append_size (d : Declaration) : (b.append d).body? ⟨b.size⟩ = d.body := by
  rw [body?, declaration?_append_size]
  rfl

theorem lt_or_eq_of_lt_size_append {d : Declaration} {id : TypeId}
    (h : id.index < (b.append d).size) : id.index < b.size ∨ id = ⟨b.size⟩ := by
  rw [size_append] at h
  rcases Nat.lt_succ_iff_lt_or_eq.mp h with hlt | heq
  · exact .inl hlt
  · cases id
    cases heq
    exact .inr rfl

/-- No name is declared twice. -/
def DistinctNames (b : Builder) : Prop :=
  ∀ {id id' : TypeId}, id.index < b.size → id'.index < b.size → b.name id = b.name id' → id = id'

theorem DistinctNames.find?_iff (h : b.DistinctNames) {name : String} {id : TypeId} :
    b.find? name = some id ↔ id.index < b.size ∧ b.name id = name := by
  constructor
  · exact find?_eq_some
  · rintro ⟨hid, hname⟩
    cases hfind : b.find? name with
    | none => exact absurd hname (find?_eq_none hfind hid)
    | some id' =>
      obtain ⟨hid', hname'⟩ := find?_eq_some hfind
      rw [h hid' hid (hname'.trans hname.symm)]

theorem DistinctNames.find?_of_extends (h : b.DistinctNames) (h' : b'.DistinctNames)
    (hext : Extends keep b b') {name : String} {id : TypeId} (hfind : b.find? name = some id) :
    b'.find? name = some id := by
  obtain ⟨hid, hname⟩ := h.find?_iff.mp hfind
  exact h'.find?_iff.mpr ⟨Nat.lt_of_lt_of_le hid hext.size, (hext.name hid).trans hname⟩

theorem DistinctNames.append (h : b.DistinctNames) {d : Declaration}
    (hnew : b.find? d.name = none) : (b.append d).DistinctNames := by
  have hold : ∀ {id : TypeId}, id.index < b.size → (b.append d).name id = b.name id :=
    (extends_append d : Extends (fun _ => True) b _).name
  intro id id' hid hid' heq
  rcases lt_or_eq_of_lt_size_append hid with hlt | rfl <;>
    rcases lt_or_eq_of_lt_size_append hid' with hlt' | rfl
  · rw [hold hlt, hold hlt'] at heq
    exact h hlt hlt' heq
  · rw [hold hlt, name_append_size] at heq
    exact absurd heq (find?_eq_none hnew hlt)
  · rw [hold hlt', name_append_size] at heq
    exact absurd heq.symm (find?_eq_none hnew hlt')
  · rfl

theorem DistinctNames.define (h : b.DistinctNames) {id : TypeId} {shape : Shape} :
    (Builder.define id shape b).2.DistinctNames := by
  intro id id' hid hid' heq
  rw [size_define] at hid hid'
  rw [name_define, name_define] at heq
  exact h hid hid' heq

/-! ### Structural types -/

/-- The label of a body, by the names of its parts. -/
def label? (b : Builder) : Shape → Option TypeLabel
  | .primitive kind => some (.primitive kind)
  | .array item => some (.array (b.name item))
  | .nullable inner => some (.nullable (b.name inner))
  | .union alternatives => some (.union (alternatives.map b.name))
  | .nameSet | .product _ | .inspect _ => none

/-- A name tells a body: it is the text of the body's label, and the parts of the body are
there. -/
def Tells (b : Builder) (name : String) (shape : Shape) : Prop :=
  (∀ part ∈ shape.contents, part.index < b.size) ∧
    ∃ label, b.label? shape = some label ∧ label.WellFormed ∧ name = label.text

/-- Names are distinct, the given ones are declared, and every other one tells the body of
its type. -/
structure Sound (known : String → Prop) (b : Builder) : Prop where
  declared : ∀ {name : String}, known name → ∃ id, b.find? name = some id
  nodup : b.DistinctNames
  tells : ∀ {id : TypeId}, id.index < b.size → ¬ known (b.name id) →
    ∃ shape, b.body? id = some shape ∧ b.Tells (b.name id) shape

variable {known : String → Prop}

theorem map_name_eq {ids : List TypeId} (h : ∀ id ∈ ids, id.index < b.size)
    (hext : Extends keep b b') : ids.map b'.name = ids.map b.name :=
  List.map_congr_left fun id hid => hext.name (h id hid)

/-- Labels stay, since names do. -/
theorem label?_extends {shape : Shape} (h : ∀ part ∈ shape.contents, part.index < b.size)
    (hext : Extends keep b b') : b'.label? shape = b.label? shape := by
  cases shape with
  | array item => rw [label?, label?, hext.name (h item (by simp [Shape.contents]))]
  | nullable inner => rw [label?, label?, hext.name (h inner (by simp [Shape.contents]))]
  | union alternatives =>
    have hparts : ∀ part ∈ alternatives, part.index < b.size := h
    rw [label?, label?, map_name_eq hparts hext]
  | primitive | nameSet | product | inspect => rfl

theorem Tells.extends {name : String} {shape : Shape} (h : b.Tells name shape)
    (hext : Extends keep b b') : b'.Tells name shape := by
  obtain ⟨hparts, label, hlabel, hwf, rfl⟩ := h
  refine ⟨fun part hpart => Nat.lt_of_lt_of_le (hparts part hpart) hext.size, label, ?_, hwf, rfl⟩
  rw [label?_extends hparts hext, hlabel]

/-- A name tells one body only. -/
theorem Sound.tells_inj (hs : b.Sound known) {name : String} {shape shape' : Shape}
    (h : b.Tells name shape) (h' : b.Tells name shape') : shape = shape' := by
  obtain ⟨hparts, label, hlabel, hwf, rfl⟩ := h
  obtain ⟨hparts', label', hlabel', hwf', heq⟩ := h'
  obtain rfl := TypeLabel.text_inj hwf hwf' heq
  -- Labels hold names, and names are distinct, so the parts are the same too.
  have hids : ∀ {l l' : List TypeId}, (∀ id ∈ l, id.index < b.size) →
      (∀ id ∈ l', id.index < b.size) → l.map b.name = l'.map b.name → l = l' := by
    intro l l' hl hl' hmap
    induction l generalizing l' with
    | nil => simpa using hmap.symm
    | cons id l ih =>
      cases l' with
      | nil => simp at hmap
      | cons id' l' =>
        simp only [List.map_cons, List.cons.injEq] at hmap
        obtain ⟨hl₀, hl⟩ := List.forall_mem_cons.mp hl
        obtain ⟨hl₀', hl'⟩ := List.forall_mem_cons.mp hl'
        rw [hs.nodup hl₀ hl₀' hmap.1, ih hl hl' hmap.2]
  cases shape <;> cases shape' <;>
    simp only [label?, Option.some.injEq, reduceCtorEq] at hlabel hlabel'
  all_goals subst hlabel
  all_goals try cases hlabel'
  case primitive.primitive => rfl
  case array.array item item' =>
    simp only [TypeLabel.array.injEq] at hlabel'
    rw [hs.nodup (hparts item (by simp [Shape.contents])) (hparts' item' (by simp [Shape.contents]))
      hlabel'.symm]
  case nullable.nullable inner inner' =>
    simp only [TypeLabel.nullable.injEq] at hlabel'
    rw [hs.nodup (hparts inner (by simp [Shape.contents]))
      (hparts' inner' (by simp [Shape.contents])) hlabel'.symm]
  case union.union l l' =>
    simp only [TypeLabel.union.injEq] at hlabel'
    exact congrArg Shape.union (hids hparts hparts' hlabel'.symm)

theorem Sound.find?_iff (hs : b.Sound known) {name : String} {id : TypeId} :
    b.find? name = some id ↔ id.index < b.size ∧ b.name id = name :=
  DistinctNames.find?_iff hs.nodup

/-- A handle keeps its name and stays the only one of that name. -/
theorem Sound.find?_of_extends (hs : b.Sound known) (hs' : b'.Sound known)
    (hext : Extends keep b b') {name : String} {id : TypeId} (h : b.find? name = some id) :
    b'.find? name = some id := DistinctNames.find?_of_extends hs.nodup hs'.nodup hext h

/-- A new body for a known name leaves a schema sound. -/
theorem Sound.define (hs : b.Sound known) {id : TypeId} (hknown : known (b.name id))
    (shape : Shape) : (Builder.define id shape b).2.Sound known where
  declared hname := (extends_define id shape).declared (hs.declared hname)
  nodup := DistinctNames.define hs.nodup
  tells {id'} hid hunknown := by
    rw [size_define] at hid
    rw [name_define] at hunknown ⊢
    have hne : id ≠ id' := by
      rintro rfl
      exact hunknown hknown
    obtain ⟨shape', hbody, htells⟩ := hs.tells hid hunknown
    exact ⟨shape', (body?_define_of_ne hne).trans hbody, htells.extends (extends_define id shape)⟩

/-! ### Declared and given out -/

theorem declare_of_find? {name : String} {id : TypeId} (h : b.find? name = some id) :
    declare name b = (id, b) := by
  rw [declare, declareAs, h]

theorem declare_of_find?_eq_none {name : String} (h : b.find? name = none) :
    declare name b = (⟨b.size⟩, b.append { name }) := by
  rw [declare, declareAs, h]

theorem named_of_declare {name : String} {shape : Shape} {id : TypeId}
    (h : declare name b = (id, b')) :
    named name shape b = (id, (Builder.define id shape b').2) := by
  simp only [named, bind, StateT.bind, h]
  rfl

theorem intern_of_find?_eq_some {name : String} {shape shape' : Shape} {id : TypeId}
    (h : b.find? name = some id) (hbody : b.body? id = some shape') :
    intern name shape b = (id, b) := by
  have hdefined : b.isDefined id = true := by rw [isDefined, hbody]; rfl
  simp [intern, declareAs, h, hdefined, bind, StateT.bind, get, getThe, MonadStateOf.get,
    StateT.get, pure]
  rfl

/-- A body for the type that was declared last. -/
theorem define_append {name : String} {structural : Bool} {shape : Shape} :
    (Builder.define ⟨b.size⟩ shape (b.append { name, structural })).2 =
      b.append { name, body := some shape, structural } := by
  refine eq_of_declarations ?_
  simp only [Builder.define, append, size, List.modify_eq_take_drop]
  simp

theorem intern_of_find?_eq_none {name : String} {shape : Shape} (h : b.find? name = none) :
    intern name shape b =
      (⟨b.size⟩, b.append { name, body := some shape, structural := true }) := by
  have hdefined : (b.append { name, structural := true }).isDefined ⟨b.size⟩ = false := by
    rw [isDefined, body?, declaration?_append_size]
    rfl
  rw [← define_append]
  rw [append] at hdefined
  simp [intern, declareAs, h, hdefined, bind, StateT.bind, get, getThe, MonadStateOf.get,
    StateT.get, pure, append]
  rfl

theorem intern_of_body?_eq_none {name : String} {shape : Shape} {id : TypeId}
    (h : b.find? name = some id) (hbody : b.body? id = none) :
    intern name shape b = (id, (Builder.define id shape b).2) := by
  have hdefined : b.isDefined id = false := by rw [isDefined, hbody]; rfl
  simp [intern, declareAs, h, hdefined, bind, StateT.bind, get, getThe, MonadStateOf.get,
    StateT.get, pure]
  rfl

/-- A type with `null` added is the type itself, if `null` is there already, or is given out under
a name of its own. -/
theorem nullable_cases (inner : TypeId) (b : Builder) :
    (nullable inner b = (inner, b) ∧
      ((∃ i, b.body? inner = some (.nullable i)) ∨ b.body? inner = some (.primitive .null))) ∨
    nullable inner b = intern ("Nullable<" ++ b.name inner ++ ">") (.nullable inner) b := by
  simp only [nullable, bind, StateT.bind, get, getThe, MonadStateOf.get, StateT.get, pure]
  cases hbody : b.body? inner with
  | none => exact .inr rfl
  | some shape =>
    cases shape with
    | nullable i => exact .inl ⟨rfl, .inl ⟨i, rfl⟩⟩
    | primitive kind =>
      cases kind with
      | null => exact .inl ⟨rfl, .inr rfl⟩
      | string | number | boolean | any => exact .inr rfl
    | array | nameSet | product | union | inspect => exact .inr rfl

/-- A union is its only member, or is given out under the names of its members. -/
theorem unionOf_cases (members : List TypeId) (b : Builder) :
    (∃ single, distinct members = [single] ∧ unionOf members b = (single, b)) ∨
    ((distinct members).length ≠ 1 ∧ unionOf members b =
      intern (" | ".intercalate ((distinct members).map b.name)) (.union (distinct members)) b) := by
  unfold unionOf
  rcases distinct members with _ | ⟨single, _ | ⟨other, rest⟩⟩
  · exact .inr ⟨by simp, rfl⟩
  · exact .inl ⟨single, rfl, rfl⟩
  · exact .inr ⟨by simp, rfl⟩

/-- A schema has grown: it is sound again, and nothing was lost. -/
structure Grows (known : String → Prop) (b b' : Builder) : Prop where
  sound : b'.Sound known
  extends_ : Extends (fun _ => True) b b'

theorem Grows.trans (h : Grows known b b') (h' : Grows known b' b'') : Grows known b b'' :=
  ⟨h'.sound, h.extends_.trans h'.extends_⟩

/-- A structural type has been given out: the schema has grown, and the name and the body of
the type are the given ones. -/
structure Added (known : String → Prop) (b b' : Builder) (id : TypeId) (name : String)
    (shape : Shape) : Prop extends Grows known b b' where
  inside : id.index < b'.size
  unknown : ¬ known name
  name_eq : b'.name id = name
  body_eq : b'.body? id = some shape

/-- A new name that tells its body leaves a schema sound. -/
theorem Sound.append (hs : b.Sound known) {name : String} {shape : Shape}
    (h : b.Tells name shape) (hnew : b.find? name = none) (hunknown : ¬ known name)
    (structural : Bool) :
    Added known b (b.append { name, body := some shape, structural }) ⟨b.size⟩ name shape := by
  set c := b.append { name, body := some shape, structural }
  have hext : Extends (fun _ => True) b c := extends_append _
  have hname : c.name ⟨b.size⟩ = name := name_append_size _
  have hbody : c.body? ⟨b.size⟩ = some shape := body?_append_size _
  refine ⟨⟨⟨fun hname => hext.declared (hs.declared hname), DistinctNames.append hs.nodup hnew, ?_⟩,
    hext⟩, ?_, hunknown, hname, hbody⟩
  · intro id hid hunknown
    rcases lt_or_eq_of_lt_size_append hid with hlt | rfl
    · rw [hext.name hlt] at hunknown ⊢
      obtain ⟨shape', hbody', htells⟩ := hs.tells hlt hunknown
      exact ⟨shape', hext.body hbody' trivial, htells.extends hext⟩
    · rw [hname]
      exact ⟨shape, hbody, h.extends hext⟩
  · show b.size < c.size
    rw [size_append]
    exact Nat.lt_succ_self _

/-- A structural type is given out under its name, with its body. -/
theorem Sound.intern (hs : b.Sound known) (hplain : ∀ {name}, known name → PlainName name)
    {name : String} {shape : Shape} (h : b.Tells name shape) {id : TypeId}
    (hrun : Builder.intern name shape b = (id, b')) : Added known b b' id name shape := by
  have hunknown : ¬ known name := by
    intro hknown
    obtain ⟨-, label, -, hwf, rfl⟩ := h
    exact TypeLabel.text_ne_of_plainName hwf (hplain hknown) rfl
  -- A name that is there already tells the same body; a new one gets it now.
  cases hfind : b.find? name with
  | some id' =>
    obtain ⟨hid, rfl⟩ := find?_eq_some hfind
    obtain ⟨shape', hbody, htells⟩ := hs.tells hid hunknown
    obtain rfl := hs.tells_inj h htells
    rw [intern_of_find?_eq_some hfind hbody] at hrun
    cases hrun
    exact ⟨⟨hs, .refl b⟩, hid, hunknown, rfl, hbody⟩
  | none =>
    rw [intern_of_find?_eq_none hfind] at hrun
    cases hrun
    exact hs.append h hfind hunknown _

/-! ### Forms of structural types -/

section

variable (hs : b.Sound known) (hplain : ∀ {name}, known name → PlainName name)
include hs hplain

theorem Sound.primitive {kind : Primitive} {id : TypeId}
    (hrun : Builder.primitive kind b = (id, b')) :
    Added known b b' id kind.name (.primitive kind) :=
  hs.intern hplain ⟨by simp [Shape.contents], .primitive kind, rfl, trivial, rfl⟩ hrun

theorem Sound.arrayOf {item id : TypeId} (hitem : item.index < b.size)
    (hrun : Builder.arrayOf item b = (id, b')) :
    Added known b b' id ("Array<" ++ b.name item ++ ">") (.array item) :=
  hs.intern hplain ⟨by simpa [Shape.contents] using hitem, .array (b.name item), rfl, trivial, rfl⟩
    hrun

/-- A type with `null` added is the type itself or a nullable of it. -/
theorem Sound.nullable {inner id : TypeId} (hinner : inner.index < b.size)
    (hrun : Builder.nullable inner b = (id, b')) :
    (id = inner ∧ b' = b ∧
      ((∃ i, b.body? inner = some (.nullable i)) ∨ b.body? inner = some (.primitive .null))) ∨
    Added known b b' id ("Nullable<" ++ b.name inner ++ ">") (.nullable inner) := by
  rcases nullable_cases inner b with ⟨hself, htakes⟩ | hintern
  · cases hself.symm.trans hrun
    exact .inl ⟨rfl, rfl, htakes⟩
  · exact .inr (hs.intern hplain ⟨by simpa [Shape.contents] using hinner, .nullable (b.name inner),
      rfl, trivial, rfl⟩ (hintern.symm.trans hrun))

/-! ### Unions -/

omit hs hplain in
theorem distinct_spec (members : List TypeId) :
    (distinct members).Nodup ∧ ∀ id, id ∈ distinct members ↔ id ∈ members := by
  refine ⟨nodup_foldl_distinct List.nodup_nil, fun id => mem_foldl_distinct.trans ?_⟩
  simp

omit hs hplain in
/-- Where there is a member, it is the only one or there are several. -/
theorem two_le_length_distinct {members : List TypeId} (hne : members ≠ [])
    (hlength : (distinct members).length ≠ 1) : 2 ≤ (distinct members).length := by
  obtain ⟨m, hm⟩ := List.exists_mem_of_ne_nil _ hne
  have hpos := List.length_pos_of_mem (((distinct_spec members).2 m).mpr hm)
  omega

/-- A type of several members is the only one, or the union of all. -/
theorem Sound.unionOf {members : List TypeId} {id : TypeId} (hne : members ≠ [])
    (hmembers : ∀ m ∈ members, m.index < b.size ∧ MemberName (b.name m))
    (hrun : Builder.unionOf members b = (id, b')) :
    (distinct members = [id] ∧ b' = b) ∨
      ∃ name, Added known b b' id name (.union (distinct members)) := by
  obtain ⟨hnodup, hmem⟩ := distinct_spec members
  have hin : ∀ m ∈ distinct members, m.index < b.size ∧ MemberName (b.name m) :=
    fun m hm => hmembers m ((hmem m).mp hm)
  rcases unionOf_cases members b with ⟨single, hd, hsingle⟩ | ⟨hlength, hintern⟩
  · cases hsingle.symm.trans hrun
    exact .inl ⟨hd, rfl⟩
  · have hseveral : 2 ≤ ((distinct members).map b.name).length := by
      rw [List.length_map]
      exact two_le_length_distinct hne hlength
    have htells : b.Tells (TypeLabel.union ((distinct members).map b.name)).text
        (.union (distinct members)) := by
      refine ⟨fun part hpart => (hin part hpart).1, _, rfl, ⟨hseveral, ?_, ?_⟩, rfl⟩
      · refine List.Nodup.map_on ?_ hnodup
        intro x hx y hy hxy
        exact hs.nodup (hin x hx).1 (hin y hy).1 hxy
      · intro name hname
        obtain ⟨m, hm, rfl⟩ := List.mem_map.mp hname
        exact (hin m hm).2
    exact .inr ⟨_, hs.intern hplain htells (hintern.symm.trans hrun)⟩

end

end Builder

end TypedTree
