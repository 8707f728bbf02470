/-
Which trees a grammar describes.

Validity is read off the grammar alone, without a schema: a list of alternatives accepts
what some alternative accepts. Main definitions:

* `Grammar.ValidNode` — a record is a node of a type or of a group;
* `Grammar.ValidField` — a record has what a field asks for;
* `Grammar.Valid` — a value, which may be missing, is as a descriptor says;
* `Grammar.Regular` — what is asked of the names of a grammar and of its lists of
  alternatives.
-/
import TypedTree.Proofs.Grammar.Membership
import TypedTree.Proofs.Synthesis.Label

namespace TypedTree

/-! ### Values of a kind -/

/-- Whether a value that may be missing is of a kind: missing values are as good as
`null`. -/
def Primitive.acceptsSource (kind : Primitive) : Option Json → Bool
  | some value => kind.accepts value
  | none => kind = .null || kind = .any

/-- A value is of the kind of a name. Objects are not looked into, nor are the items of
arrays. -/
def acceptsKind (name : String) (source : Option Json) : Prop :=
  if name = "object" then True
  else if name = "array" then ∃ items, source = some (.arr items)
  else ∃ kind, Primitive.ofName? name = some kind ∧ kind.acceptsSource source = true

namespace Descriptor

/-- Whether a name stands for nodes where values may stand too. -/
def namesNodes (name : String) : Bool := name.toList.any Char.isUpper

/-- What is said about the items of an array, by what follows the head of its chain. -/
def itemOf? : List Descriptor → Option Descriptor
  | [] => none
  | each item :: _ => some item
  | other :: _ => some other

/-- The first link of a chain that says something. -/
def firstLink? (links : List Descriptor) : Option Descriptor := links.find? fun d => !d.isEmpty

/-- A chain is one over the items of an array. -/
def headIsArray (links : List Descriptor) : Bool :=
  match links with
  | [] => false
  | head :: _ => head.isArrayKind

/-- A descriptor is part of another one. -/
inductive Within : Descriptor → Descriptor → Prop
  | refl (d : Descriptor) : Within d d
  | link {d link : Descriptor} {links : List Descriptor} (mem : link ∈ links)
      (h : Within d link) : Within d (chain links)
  | item {d item : Descriptor} (h : Within d item) : Within d (each item)

end Descriptor

open Descriptor

namespace Grammar

mutual

/-- A value is a node of a type, or of a member of a group. -/
inductive ValidNode (g : Grammar) : String → Json → Prop
  | type {name : String} {fields : List GrammarField} {record : Json.Record}
      (fields_eq : g.fieldsOf? name = some fields) (apart : g.membersOf? name = none)
      (tag : record.tag? = some name) (all : ∀ f ∈ fields, ValidField g f record) :
      ValidNode g name (.obj record)
  | member {name member : String} {members : List String} {v : Json}
      (members_eq : g.membersOf? name = some members) (mem : member ∈ members)
      (valid : ValidNode g member v) : ValidNode g name v

/-- A record leaves out a field that it may leave out, or has a valid value there. -/
inductive ValidField (g : Grammar) : GrammarField → Json.Record → Prop
  | absent {f : GrammarField} {record : Json.Record}
      (null : (record.get? f.name).all Json.isNull = true)
      (dispensable : f.optional = true ∨ f.default.isSome = true) : ValidField g f record
  | present {f : GrammarField} {record : Json.Record} {d : Descriptor}
      (descriptor : f.descriptor = some d) (valid : Valid g d (record.get? f.name)) :
      ValidField g f record

/-- A value, which may be missing, is as a descriptor says. -/
inductive Valid (g : Grammar) : Descriptor → Option Json → Prop
  | kind {name : String} {source : Option Json} (h : acceptsKind name source) :
      Valid g (.kind name) source
  | nodeType {names : List String} {name : String} {v : Json} (mem : name ∈ names)
      (valid : ValidNode g name v) : Valid g (.nodeTypes names) (some v)
  | node {names : List String} {name : String} {v : Json} (mem : name ∈ names)
      (upper : namesNodes name = true) (valid : ValidNode g name v) :
      Valid g (.nodeOrValueTypes names) (some v)
  | value {names : List String} {name : String} {source : Option Json} (mem : name ∈ names)
      (lower : namesNodes name = false) (h : acceptsKind name source) :
      Valid g (.nodeOrValueTypes names) source
  | oneOf {first : Json} {rest : List Json} {source : Option Json}
      (h : (Primitive.ofLiteral first).acceptsSource source = true) :
      Valid g (.oneOf (first :: rest)) source
  | shapeOf {form : Json} {source : Option Json} : Valid g (.shapeOf form) source
  | array {head : Descriptor} {rest : List Descriptor} {items : List Json}
      (array : head.isArrayKind = true)
      (all : ∀ item ∈ stripRest items, ∀ d, itemOf? rest = some d → Valid g d (some item)) :
      Valid g (.chain (head :: rest)) (some (.arr items))
  | first {links : List Descriptor} {d : Descriptor} {source : Option Json}
      (other : headIsArray links = false) (first : firstLink? links = some d)
      (valid : Valid g d source) : Valid g (.chain links) source

end

/-- A name is that of a node type or a group. -/
def Known (g : Grammar) (name : String) : Prop := g.isType name = true ∨ g.isGroup name = true

/-- What is asked of a grammar: a name does not stand for a type and a group, looks as
wanted, and no list of alternatives names nodes beside a kind that takes anything. -/
structure Regular (g : Grammar) (plain : String → Prop) : Prop where
  apart : ∀ name, ¬ (g.isType name = true ∧ g.isGroup name = true)
  plain : ∀ name, g.Known name → plain name
  unmixed : ∀ entry ∈ g.types, ∀ f ∈ entry.2, ∀ d, f.descriptor = some d → ∀ names,
    Within (.nodeOrValueTypes names) d → (∃ name ∈ names, namesNodes name = true) →
      "any" ∉ names ∧ "object" ∉ names

variable {g : Grammar}

/-- A valid node is a record, and valid for the type that it is tagged with. -/
theorem ValidNode.exists_type : ∀ {name : String} {v : Json}, g.ValidNode name v →
    ∃ (record : Json.Record) (tag : String), v = .obj record ∧ record.tag? = some tag ∧
      g.isType tag = true ∧ g.membersOf? tag = none ∧ g.ValidNode tag v
  | _, _, .type hfields hapart htag hall =>
    ⟨_, _, rfl, htag, by rw [isType, hfields]; rfl, hapart, .type hfields hapart htag hall⟩
  | _, _, .member _ _ valid => valid.exists_type

/-! ### Validity by form -/

theorem valid_kind_iff {name : String} {source : Option Json} :
    g.Valid (.kind name) source ↔ acceptsKind name source := by
  refine ⟨fun h => ?_, .kind⟩
  cases h with
  | kind h => exact h

theorem valid_nodeTypes_iff {names : List String} {source : Option Json} :
    g.Valid (.nodeTypes names) source ↔
      ∃ name ∈ names, ∃ v, source = some v ∧ g.ValidNode name v := by
  constructor
  · intro h
    cases h with
    | nodeType mem valid => exact ⟨_, mem, _, rfl, valid⟩
  · rintro ⟨name, hmem, v, rfl, hvalid⟩
    exact .nodeType hmem hvalid

theorem valid_nodeOrValueTypes_iff {names : List String} {source : Option Json} :
    g.Valid (.nodeOrValueTypes names) source ↔
      ∃ name ∈ names, if namesNodes name then ∃ v, source = some v ∧ g.ValidNode name v
        else acceptsKind name source := by
  constructor
  · intro h
    cases h with
    | node mem upper valid => exact ⟨_, mem, by rw [if_pos upper]; exact ⟨_, rfl, valid⟩⟩
    | value mem lower h => exact ⟨_, mem, by rw [if_neg (by simp [lower])]; exact h⟩
  · rintro ⟨name, hmem, h⟩
    split at h
    · next hupper =>
      obtain ⟨v, rfl, hvalid⟩ := h
      exact .node hmem hupper hvalid
    · next hlower => exact .value hmem (by simpa using hlower) h

theorem valid_oneOf_iff {first : Json} {rest : List Json} {source : Option Json} :
    g.Valid (.oneOf (first :: rest)) source ↔
      (Primitive.ofLiteral first).acceptsSource source = true := by
  refine ⟨fun h => ?_, .oneOf⟩
  cases h with
  | oneOf h => exact h

theorem valid_array_iff {head : Descriptor} {rest : List Descriptor} {source : Option Json}
    (hhead : head.isArrayKind = true) :
    g.Valid (.chain (head :: rest)) source ↔ ∃ items, source = some (.arr items) ∧
      ∀ item ∈ stripRest items, ∀ d, itemOf? rest = some d → g.Valid d (some item) := by
  constructor
  · intro h
    cases h with
    | array _ all => exact ⟨_, rfl, all⟩
    | first other =>
      rw [headIsArray, hhead] at other
      cases other
  · rintro ⟨items, rfl, hall⟩
    exact .array hhead hall

theorem valid_first_iff {links : List Descriptor} {d : Descriptor} {source : Option Json}
    (hother : headIsArray links = false) (hfirst : firstLink? links = some d) :
    g.Valid (.chain links) source ↔ g.Valid d source := by
  constructor
  · intro h
    cases h with
    | array array =>
      rw [headIsArray, array] at hother
      cases hother
    | first _ first valid =>
      rw [hfirst] at first
      cases first
      exact valid
  · exact .first hother hfirst

theorem validField_iff {f : GrammarField} {record : Json.Record} {d : Descriptor}
    (hd : f.descriptor = some d) :
    g.ValidField f record ↔
      (record.get? f.name).all Json.isNull = true ∧ (f.optional = true ∨ f.default.isSome = true) ∨
        g.Valid d (record.get? f.name) := by
  constructor
  · intro h
    cases h with
    | absent null dispensable => exact .inl ⟨null, dispensable⟩
    | present descriptor valid =>
      rw [hd] at descriptor
      cases descriptor
      exact .inr valid
  · rintro (⟨hnull, hdispensable⟩ | hvalid)
    · exact .absent hnull hdispensable
    · exact .present hd hvalid

theorem validNode_type_iff {name : String} {fields : List GrammarField} {v : Json}
    (hapart : g.membersOf? name = none) (hfields : g.fieldsOf? name = some fields) :
    g.ValidNode name v ↔ ∃ record : Json.Record, v = .obj record ∧ record.tag? = some name ∧
      ∀ f ∈ fields, g.ValidField f record := by
  constructor
  · intro h
    cases h with
    | type fields_eq _ tag all =>
      rw [hfields] at fields_eq
      cases fields_eq
      exact ⟨_, rfl, tag, all⟩
    | member members_eq =>
      rw [hapart] at members_eq
      cases members_eq
  · rintro ⟨record, rfl, htag, hall⟩
    exact .type hfields hapart htag hall

theorem validNode_group_iff {name : String} {members : List String} {v : Json}
    (hmembers : g.membersOf? name = some members) :
    g.ValidNode name v ↔ ∃ member ∈ members, g.ValidNode member v := by
  constructor
  · intro h
    cases h with
    | type _ apart =>
      rw [hmembers] at apart
      cases apart
    | member members_eq mem valid =>
      rw [hmembers] at members_eq
      cases members_eq
      exact ⟨_, mem, valid⟩
  · rintro ⟨member, hmem, hvalid⟩
    exact .member hmembers hmem hvalid

/-! ### Grammars of tables -/

theorem mem_of_mem_addMember {type : String} {groups : List (String × List String)}
    {group : String} {entry : String × List String} {member : String}
    (h : entry ∈ addMember type groups group) (hm : member ∈ entry.2) :
    member = type ∨ ∃ entry ∈ groups, member ∈ entry.2 := by
  rcases Entries.mem_of_mem_set h with rfl | h
  · have hold : member ∈ (groups.lookup group).getD [] → ∃ entry ∈ groups, member ∈ entry.2 := by
      intro hmem
      cases hlookup : groups.lookup group with
      | none => simp [hlookup] at hmem
      | some members => exact ⟨_, mem_of_lookup_eq_some hlookup, by simpa [hlookup] using hmem⟩
    dsimp only at hm
    split at hm
    · exact .inr (hold hm)
    · rcases List.mem_append.mp hm with hm | hm
      · exact .inr (hold hm)
      · exact .inl (List.mem_singleton.mp hm)
  · exact .inr ⟨entry, h, hm⟩

theorem mem_of_mem_addType {groups : List (String × List String)} {type : String × TableType}
    {entry : String × List String} {member : String} (h : entry ∈ addType groups type)
    (hm : member ∈ entry.2) : member = type.1 ∨ ∃ entry ∈ groups, member ∈ entry.2 := by
  unfold addType at h
  generalize type.2.aliases = aliases at h
  induction aliases generalizing groups with
  | nil => exact .inr ⟨entry, h, hm⟩
  | cons group aliases ih =>
    rcases ih h with heq | ⟨entry', h', hm'⟩
    · exact .inl heq
    · exact mem_of_mem_addMember h' hm'

/-- The members of a group are types. -/
theorem isType_of_mem_group {table : GrammarTable} {group member : String} {members : List String}
    (h : (ofTable table).membersOf? group = some members) (hm : member ∈ members) :
    (ofTable table).isType member = true := by
  have hfold : ∀ {types : List (String × TableType)} {groups : List (String × List String)},
      (∃ entry ∈ types.foldl addType groups, member ∈ entry.2) →
        member ∈ types.map (·.1) ∨ ∃ entry ∈ groups, member ∈ entry.2 := by
    intro types
    induction types with
    | nil => exact .inr
    | cons type types ih =>
      intro groups h
      rcases ih h with hmem | ⟨entry, hentry, hm⟩
      · exact .inl (List.mem_cons_of_mem _ hmem)
      · refine (mem_of_mem_addType hentry hm).imp_left ?_
        rintro rfl
        exact List.mem_cons_self
  refine mem_keys_iff.mp ?_
  rcases hfold ⟨_, mem_of_lookup_eq_some h, hm⟩ with hmem | ⟨entry, hentry, -⟩
  · rw [ofTable, List.map_map]
    exact hmem
  · cases hentry

end Grammar

end TypedTree
