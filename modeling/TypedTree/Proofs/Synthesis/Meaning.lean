/-
What the types of a synthesized schema stand for.

A type stands for a descriptor if it says the same, in terms of types for its parts; names
of nodes stand for the types declared under them. Main statements:

* `Grammar.Means` — a type stands for a descriptor;
* `Grammar.FieldMeans` — a field of a product stands for a field of a node type;
* `Grammar.Defines` — a name has a body that stands for it;
* `Grammar.Means.extends`, `Grammar.Defines.extends` — growth keeps what stands for what.

Design notes: the bodies of names of the grammar come last and replace each other, so what
a descriptor means refers to those names and not to their bodies. It then stays true while
the schema grows.
-/
import TypedTree.Proofs.Synthesis.Growth
import TypedTree.Proofs.Synthesis.Validity

namespace TypedTree

open Builder Descriptor

namespace Grammar

variable {g : Grammar} {b b' : Builder} {id : TypeId}

/-! ### Types and what they stand for -/

/-- A structural type has a body. -/
def Has (g : Grammar) (b : Builder) (id : TypeId) (shape : Shape) : Prop :=
  b.body? id = some shape ∧ ¬ g.Known (b.name id)

/-- A type stands for the values of a kind. -/
def MeansKind (g : Grammar) (b : Builder) (name : String) (id : TypeId) : Prop :=
  if name = "object" then g.Has b id (.primitive .any)
  else if name = "array" then
    ∃ item, g.Has b id (.array item) ∧ g.Has b item (.primitive .any)
  else ∃ kind, Primitive.ofName? name = some kind ∧ g.Has b id (.primitive kind)

/-- A type stands for the nodes of a type or a group. -/
def MeansNode (g : Grammar) (b : Builder) (name : String) (id : TypeId) : Prop :=
  g.Known name ∧ b.find? name = some id

/-- A type stands for a name in a list, where some names are those of nodes. -/
def MeansName (g : Grammar) (b : Builder) (node : String → Bool) (name : String) (id : TypeId) :
    Prop :=
  if node name then g.MeansNode b name id else g.MeansKind b name id

/-- A type stands for a list of names: it is the union of the types of all, or the only
one. -/
def MeansList (g : Grammar) (b : Builder) (node : String → Bool) (names : List String)
    (id : TypeId) : Prop :=
  ∃ ids, List.Forall₂ (g.MeansName b node) names ids ∧
    (distinct ids = [id] ∨ g.Has b id (.union (distinct ids)))

/-- A type stands for a descriptor. -/
inductive Means (g : Grammar) (b : Builder) : Descriptor → TypeId → Prop
  | kind {name : String} {id : TypeId} (h : g.MeansKind b name id) : Means g b (.kind name) id
  | nodeTypes {names : List String} {id : TypeId} (h : g.MeansList b (fun _ => true) names id) :
      Means g b (.nodeTypes names) id
  | nodeOrValueTypes {names : List String} {id : TypeId} (h : g.MeansList b namesNodes names id) :
      Means g b (.nodeOrValueTypes names) id
  | oneOf {first : Json} {rest : List Json} {id : TypeId}
      (h : g.Has b id (.primitive (.ofLiteral first))) : Means g b (.oneOf (first :: rest)) id
  | shapeOf {form : Json} {id : TypeId} (h : g.Has b id (.primitive .any)) :
      Means g b (.shapeOf form) id
  | array {head : Descriptor} {rest : List Descriptor} {id item : TypeId}
      (array : head.isArrayKind = true) (h : g.Has b id (.array item))
      (each : ∀ d, itemOf? rest = some d → Means g b d item)
      (any : itemOf? rest = none → g.Has b item (.primitive .any)) :
      Means g b (.chain (head :: rest)) id
  | first {links : List Descriptor} {d : Descriptor} {id : TypeId}
      (other : headIsArray links = false) (first : firstLink? links = some d)
      (h : Means g b d id) : Means g b (.chain links) id

/-- A field of a product stands for a field of a node type. A field that may be left out has
a default and does not tell `null` from what is missing. -/
structure FieldMeans (g : Grammar) (b : Builder) (f : GrammarField) (field : Field) : Prop where
  source : field.source = .key f.name
  meaning : ∃ d base, f.descriptor = some d ∧ g.Means b d base ∧
    (field.type = base ∨ g.Has b field.type (.nullable base) ∧ f.optional = true)
  default : (f.optional = true ∨ f.default.isSome = true) → ∃ v, field.population = .default v
  required : ¬ (f.optional = true ∨ f.default.isSome = true) → field.population = .required

/-- The body of a name: the union of the members of a group, or the product of the fields
of a type. -/
inductive Defines (g : Grammar) (b : Builder) (name : String) : Prop
  | group {id : TypeId} {members : List String} {ids : List TypeId}
      (members_eq : g.membersOf? name = some members) (find : b.find? name = some id)
      (body : b.body? id = some (.union ids))
      (all : List.Forall₂ (fun member id => b.find? member = some id) members ids)
  | type {id : TypeId} {fields : List GrammarField} {slots : List Field}
      (apart : g.membersOf? name = none) (fields_eq : g.fieldsOf? name = some fields)
      (find : b.find? name = some id)
      (body : b.body? id = some (.product { source := { tag := name }, fields := slots }))
      (all : List.Forall₂ (g.FieldMeans b) fields slots)

/-! ### Growth keeps meanings -/

section

variable (hs : b.Sound g.Known) (hs' : b'.Sound g.Known)
  (hext : Extends (fun name => ¬ g.Known name) b b')
include hext

theorem Has.extends {shape : Shape} (h : g.Has b id shape) : g.Has b' id shape := by
  obtain ⟨hbody, hunknown⟩ := h
  refine ⟨hext.body hbody hunknown, ?_⟩
  rwa [hext.name (lt_size_of_body? hbody)]

theorem MeansKind.extends {name : String} (h : g.MeansKind b name id) :
    g.MeansKind b' name id := by
  unfold MeansKind at *
  split_ifs at h ⊢
  · exact h.extends hext
  · obtain ⟨item, hid, hitem⟩ := h
    exact ⟨item, hid.extends hext, hitem.extends hext⟩
  · obtain ⟨kind, hkind, hid⟩ := h
    exact ⟨kind, hkind, hid.extends hext⟩

include hs hs'

theorem MeansNode.extends {name : String} (h : g.MeansNode b name id) :
    g.MeansNode b' name id := ⟨h.1, hs.find?_of_extends hs' hext h.2⟩

theorem MeansName.extends {node : String → Bool} {name : String} (h : g.MeansName b node name id) :
    g.MeansName b' node name id := by
  unfold MeansName at *
  split_ifs at h ⊢
  · exact h.extends hs hs' hext
  · exact h.extends hext

theorem MeansList.extends {node : String → Bool} {names : List String}
    (h : g.MeansList b node names id) : g.MeansList b' node names id := by
  obtain ⟨ids, hids, hid⟩ := h
  exact ⟨ids, hids.imp fun _ _ h => h.extends hs hs' hext, hid.imp_right fun h => h.extends hext⟩

theorem Means.extends {d : Descriptor} (h : g.Means b d id) : g.Means b' d id := by
  induction h with
  | kind h => exact .kind (h.extends hext)
  | nodeTypes h => exact .nodeTypes (h.extends hs hs' hext)
  | nodeOrValueTypes h => exact .nodeOrValueTypes (h.extends hs hs' hext)
  | oneOf h => exact .oneOf (h.extends hext)
  | shapeOf h => exact .shapeOf (h.extends hext)
  | array harray h _ any ih =>
    exact .array harray (h.extends hext) ih fun hnone => (any hnone).extends hext
  | first hother hfirst _ ih => exact .first hother hfirst ih

theorem FieldMeans.extends {f : GrammarField} {field : Field} (h : g.FieldMeans b f field) :
    g.FieldMeans b' f field := by
  obtain ⟨d, base, hd, hbase, htype⟩ := h.meaning
  exact ⟨h.source, ⟨d, base, hd, hbase.extends hs hs' hext,
    htype.imp_right fun h => ⟨h.1.extends hext, h.2⟩⟩, h.default, h.required⟩

end

/-- A body stays until its name gets another one. -/
theorem Defines.extends {keep : String → Prop} (hs : b.Sound g.Known) (hs' : b'.Sound g.Known)
    (hext : Extends keep b b') (hkeep : ∀ name, ¬ g.Known name → keep name) {name : String}
    (hname : keep name) (h : g.Defines b name) : g.Defines b' name := by
  cases h with
  | group hmembers hfind hbody hall =>
    refine .group hmembers (hs.find?_of_extends hs' hext hfind) (hext.body hbody ?_)
      (hall.imp fun _ _ h => hs.find?_of_extends hs' hext h)
    rwa [(hs.find?_iff.mp hfind).2]
  | type hapart hfields hfind hbody hall =>
    refine .type hapart hfields (hs.find?_of_extends hs' hext hfind) (hext.body hbody ?_)
      (hall.imp fun _ _ h => h.extends hs hs' (hext.mono hkeep))
    rwa [(hs.find?_iff.mp hfind).2]

end Grammar

end TypedTree
