/-
The bodies that a grammar gives its names.

Nothing is asked of the names of the grammar here. Main statements:

* `GrammarField.ReadBy` — a field of a product reads a field of a node type;
* `Grammar.resolve_adds` — the type made for a descriptor is there, and all else stays;
* `Grammar.field_adds` — the field made for a field of a node type reads it;
* `Grammar.HasBody` — a name has the body that its grammar says: the union of its members if
  it is a group, and else the product of its fields;
* `Grammar.bodies_of_synthesize` — all names have their bodies in a schema made from a grammar.
-/
import TypedTree.Proofs.Synthesis.Naming
import TypedTree.Proofs.Synthesis.Resolution

namespace TypedTree

open Builder Synthesis

/-! ### Fields -/

/-- How a field of a node type gets its value. -/
def GrammarField.population (f : GrammarField) : Population :=
  if f.optional then .default ((f.default.map Value.ofLiteral).getD .null)
  else
    match f.default with
    | some literal => .default (.ofLiteral literal)
    | none => .required

/-- A field of a product reads a field of a node type: it has its name and its default, and
takes the value from the key of that name. -/
structure GrammarField.ReadBy (f : GrammarField) (slot : Field) : Prop where
  name : slot.name = f.name
  source : slot.source = .key f.name
  population : slot.population = f.population

namespace Grammar

variable {g : Grammar} {b b' : Builder} {id : TypeId} {name : String}

/-! ### Types of descriptors -/

theorem kind_adds (hl : b.Layered g.Known) (h : Runs (kind name) b id b') :
    Adds g.Known b b' id ∧ MayJoin g.Known (b'.name id) := by
  have hprimitive : ∀ {kind : Primitive}, Builder.primitive kind b = (id, b') →
      Adds g.Known b b' id ∧ MayJoin g.Known (b'.name id) := by
    intro kind hrun
    obtain ⟨hadds, hname⟩ := hl.primitive hrun
    exact ⟨hadds, .inr (.inl ⟨kind, hname⟩)⟩
  unfold kind at h
  split_ifs at h
  · exact hprimitive (runs_lift_iff.mp h)
  · obtain ⟨any, b₁, hany, h⟩ := runs_bind_iff.mp h
    obtain ⟨hany, hname⟩ := hl.primitive (runs_lift_iff.mp hany)
    obtain ⟨hadds, hname'⟩ := hany.layered.arrayOf hany.inside (runs_lift_iff.mp h)
    rw [hname] at hname'
    exact ⟨⟨hadds.layered, hany.extends_.trans hadds.extends_, hadds.inside⟩,
      .inr (.inr hname')⟩
  · split at h
    · exact hprimitive (runs_lift_iff.mp h)
    · exact absurd h not_runs_throw

theorem reference_adds (hl : b.Layered g.Known) (h : Runs (reference g name) b id b') :
    Adds g.Known b b' id ∧ MayJoin g.Known (b'.name id) := by
  obtain ⟨rfl, hknown, hfind⟩ := reference_spec hl.declared h
  obtain ⟨hinside, hname⟩ := find?_eq_some hfind
  exact ⟨⟨hl, .refl _, hinside⟩, .inl (hname ▸ hknown)⟩

theorem referenceOrKind_adds (hl : b.Layered g.Known)
    (h : Runs (referenceOrKind g name) b id b') :
    Adds g.Known b b' id ∧ MayJoin g.Known (b'.name id) := by
  unfold referenceOrKind at h
  split_ifs at h
  · exact reference_adds hl h
  · exact kind_adds hl h

/-- A list of names gets a type, if each of them does. -/
theorem unionOfNames_adds (hl : b.Layered g.Known) {names : List String} {complaint : String}
    {type : String → Resolving TypeId}
    (hstep : ∀ {name : String} {b b' : Builder} {id : TypeId}, b.Layered g.Known →
      Runs (type name) b id b' → Adds g.Known b b' id ∧ MayJoin g.Known (b'.name id))
    (h : Runs (unionOfNames names complaint type) b id b') : Adds g.Known b b' id := by
  have hne : names ≠ [] := by
    rintro rfl
    obtain ⟨_, _, h, -⟩ := runs_bind_iff.mp h
    exact not_runs_throw h
  rw [unionOfNames, if_neg (by simpa using hne)] at h
  obtain ⟨ids, b₁, hids, h⟩ := runs_bind_iff.mp h
  obtain ⟨hl₁, hext, hall⟩ := runs_mapM_of (·.Layered g.Known)
    (P := fun b (_ : String) id => id.index < b.size ∧ MayJoin g.Known (b.name id))
    (fun _ _ hext h => ⟨Nat.lt_of_lt_of_le h.1 hext.size, by rw [hext.name h.1]; exact h.2⟩)
    (fun _ _ _ _ _ hl h => by
      obtain ⟨hadds, hjoin⟩ := hstep hl h
      exact ⟨hadds.layered, hadds.extends_, hadds.inside, hjoin⟩) hl hids
  have hids : ids ≠ [] := by
    rintro rfl
    exact hne (List.length_eq_zero_iff.mp hall.length_eq)
  have hmembers : ∀ m ∈ ids, m.index < b₁.size ∧ MayJoin g.Known (b₁.name m) := by
    intro m hm
    obtain ⟨_, -, h⟩ := exists_of_forall₂_of_mem_right hall hm
    exact h
  have hadds := hl₁.unionOf hids hmembers (runs_lift_iff.mp h)
  exact ⟨hadds.layered, hext.trans hadds.extends_, hadds.inside⟩

mutual

/-- The type made for a descriptor is there, and all else stays. -/
theorem resolve_adds (hl : b.Layered g.Known) : ∀ {d : Descriptor} {b' : Builder} {id : TypeId},
    Runs (resolve g d) b id b' → Adds g.Known b b' id
  | .kind _, _, _, h => by
    rw [resolve] at h
    exact (kind_adds hl h).1
  | .nodeTypes _, _, _, h => by
    rw [resolve] at h
    exact unionOfNames_adds hl reference_adds h
  | .nodeOrValueTypes _, _, _, h => by
    rw [resolve] at h
    exact unionOfNames_adds hl referenceOrKind_adds h
  | .oneOf (_ :: _), _, _, h | .shapeOf _, _, _, h => by
    rw [resolve] at h
    exact (hl.primitive (runs_lift_iff.mp h)).1
  | .chain (head :: rest), _, _, h => by
    rw [resolve] at h
    split at h
    · obtain ⟨item, b₁, hitem, h⟩ := runs_bind_iff.mp h
      have hitem := resolveItem_adds hl hitem
      have hadds := (hitem.layered.arrayOf hitem.inside (runs_lift_iff.mp h)).1
      exact ⟨hadds.layered, hitem.extends_.trans hadds.extends_, hadds.inside⟩
    · exact resolveFirst_adds hl h
  | .oneOf [], _, _, h | .chain [], _, _, h | .each _, _, _, h | .empty, _, _, h
  | .unrecognized _, _, _, h => by
    rw [resolve] at h
    exact absurd h not_runs_throw

theorem resolveItem_adds (hl : b.Layered g.Known) :
    ∀ {rest : List Descriptor} {b' : Builder} {id : TypeId},
      Runs (resolveItem g rest) b id b' → Adds g.Known b b' id
  | [], _, _, h => by
    rw [resolveItem] at h
    exact (hl.primitive (runs_lift_iff.mp h)).1
  | link :: rest, _, _, h => by
    by_cases heach : ∃ item, link = .each item
    · obtain ⟨item, rfl⟩ := heach
      rw [resolveItem] at h
      exact resolve_adds hl h
    · rw [resolveItem_cons fun item h => heach ⟨item, h⟩] at h
      exact resolve_adds hl h

theorem resolveFirst_adds (hl : b.Layered g.Known) :
    ∀ {links : List Descriptor} {b' : Builder} {id : TypeId},
      Runs (resolveFirst g links) b id b' → Adds g.Known b b' id
  | [], _, _, h => by
    rw [resolveFirst] at h
    exact absurd h not_runs_throw
  | link :: rest, _, _, h => by
    rw [resolveFirst] at h
    split at h
    · exact resolveFirst_adds hl h
    · exact resolve_adds hl h

end

/-! ### Fields of products -/

/-- A field of a product reads a field of a node type, and takes `null` for good if that field
may be left out and no name of the grammar is in the way. -/
structure Slot (g : Grammar) (b : Builder) (f : GrammarField) (slot : Field) : Prop
    extends f.ReadBy slot where
  takesNull : f.optional = true → NullFree g.Known →
    ¬ g.Known (b.name slot.type) ∧ b.TakesNull slot.type

theorem Slot.extends {f : GrammarField} {slot : Field} (h : g.Slot b f slot)
    (hext : Extends (fun name => ¬ g.Known name) b b') : g.Slot b' f slot where
  toReadBy := h.toReadBy
  takesNull hoptional hfree := by
    obtain ⟨hunknown, htakes⟩ := h.takesNull hoptional hfree
    have hkeep : ∀ {shape}, b.body? slot.type = some shape →
        b'.name slot.type = b.name slot.type ∧ b'.body? slot.type = some shape :=
      fun hbody => ⟨hext.name (lt_size_of_body? hbody), hext.body hbody hunknown⟩
    rcases htakes with ⟨inner, hbody⟩ | hbody
    · obtain ⟨hname, hbody'⟩ := hkeep hbody
      exact ⟨hname ▸ hunknown, .inl ⟨inner, hbody'⟩⟩
    · obtain ⟨hname, hbody'⟩ := hkeep hbody
      exact ⟨hname ▸ hunknown, .inr hbody'⟩

/-- The field made for a field of a node type reads it. -/
theorem field_adds (hl : b.Layered g.Known) {type : String} {f : GrammarField} {slot : Field}
    (h : Runs (Synthesis.field g type f) b slot b') :
    b'.Layered g.Known ∧ Extends (fun _ => True) b b' ∧ g.Slot b' f slot := by
  unfold Synthesis.field at h
  cases hd : f.descriptor with
  | none =>
    rw [hd] at h
    exact absurd h not_runs_throw
  | some d =>
    rw [hd] at h
    obtain ⟨base, b₁, hbase, h⟩ := runs_bind_iff.mp h
    have hbase := resolve_adds hl (runs_adapt_iff.mp hbase)
    split at h
    · next hoptional =>
      obtain ⟨id, b₂, hid, h⟩ := runs_bind_iff.mp h
      obtain ⟨rfl, rfl⟩ := runs_pure_iff.mp h
      obtain ⟨hadds, htakes⟩ := hbase.layered.nullable hbase.inside (runs_lift_iff.mp hid)
      have hpopulation : f.population = .default ((f.default.map Value.ofLiteral).getD .null) :=
        if_pos hoptional
      exact ⟨hadds.layered, hbase.extends_.trans hadds.extends_,
        ⟨rfl, rfl, hpopulation.symm⟩, fun _ => htakes⟩
    · next hrequired =>
      have hpopulation : f.population = match f.default with
          | some literal => .default (.ofLiteral literal)
          | none => .required := if_neg hrequired
      split at h
      · next literal hdefault =>
        obtain ⟨rfl, rfl⟩ := runs_pure_iff.mp h
        rw [hdefault] at hpopulation
        exact ⟨hbase.layered, hbase.extends_, ⟨rfl, rfl, hpopulation.symm⟩,
          fun hoptional => absurd hoptional hrequired⟩
      · next hdefault =>
        obtain ⟨rfl, rfl⟩ := runs_pure_iff.mp h
        rw [hdefault] at hpopulation
        exact ⟨hbase.layered, hbase.extends_, ⟨rfl, rfl, hpopulation.symm⟩,
          fun hoptional => absurd hoptional hrequired⟩

/-! ### Bodies of names -/

/-- A name has the body that its grammar says: the union of the members of a group, or the
product of the fields of a type that may not be left out. -/
inductive HasBody (g : Grammar) (ignored : List (String × String)) (b : Builder)
    (name : String) : Prop
  | group {id : TypeId} {members : List String} {ids : List TypeId}
      (members_eq : g.membersOf? name = some members) (find : b.find? name = some id)
      (body : b.body? id = some (.union ids))
      (all : List.Forall₂ (fun member id => b.find? member = some id) members ids)
  | type {id : TypeId} {fields : List GrammarField} {slots : List Field}
      (apart : g.membersOf? name = none) (fields_eq : g.fieldsOf? name = some fields)
      (find : b.find? name = some id)
      (body : b.body? id = some (.product { source := { tag := name }, fields := slots }))
      (all : List.Forall₂ (g.Slot b) (kept ignored name fields) slots)

variable {ignored : List (String × String)}

/-- A body stays until its name gets another one. -/
theorem HasBody.extends {keep : String → Prop} (hl : b.Layered g.Known)
    (hl' : b'.Layered g.Known) (hext : Extends keep b b')
    (hkeep : ∀ name, ¬ g.Known name → keep name) (hname : keep name)
    (h : g.HasBody ignored b name) : g.HasBody ignored b' name := by
  have hfind : ∀ {name id}, b.find? name = some id → b'.find? name = some id :=
    DistinctNames.find?_of_extends hl.nodup hl'.nodup hext
  cases h with
  | group hmembers find hbody hall =>
    refine .group hmembers (hfind find) (hext.body hbody ?_) (hall.imp fun _ _ h => hfind h)
    rwa [(find?_eq_some find).2]
  | type hapart hfields find hbody hall =>
    refine .type hapart hfields (hfind find) (hext.body hbody ?_)
      (hall.imp fun _ _ h => h.extends (hext.mono hkeep))
    rwa [(find?_eq_some find).2]

/-- A new body under a name of the grammar. -/
theorem define_keeps (hl : b.Layered g.Known) {ε : Type} {shape : Shape} (hknown : g.Known name)
    (hfind : b.find? name = some id)
    (hshape : (∃ p, shape = .product p) ∨ ∃ ids, shape = .union ids)
    (h : Runs (liftM (Builder.define id shape) : ExceptT ε Building Unit) b () b') :
    b'.Layered g.Known ∧ Extends (· ≠ name) b b' ∧ b'.find? name = some id ∧
      b'.body? id = some shape := by
  have hdefine : b' = (Builder.define id shape b).2 := by rw [runs_lift_iff.mp h]
  subst hdefine
  obtain ⟨hinside, rfl⟩ := find?_eq_some hfind
  have hlayered := hl.define hknown (hshape.imp_right .inl)
  exact ⟨hlayered, extends_define id shape,
    DistinctNames.find?_of_extends hl.nodup hlayered.nodup (extends_define id shape) hfind,
    body?_define_self hinside⟩

/-- A name gets its body, and no other name gets a new one. -/
theorem define_adds (hl : b.Layered g.Known) (hknown : g.Known name)
    (hmembers : ∀ members, g.membersOf? name = some members → ∀ m ∈ members, g.Known m)
    (h : Runs (Synthesis.define g ignored name) b () b') :
    b'.Layered g.Known ∧ Extends (· ≠ name) b b' ∧ g.HasBody ignored b' name := by
  -- As in `define`, the members of a group are looked for before the fields of a type.
  unfold Synthesis.define at h
  split at h
  · next members hm =>
    obtain ⟨ids, b₁, hids, hrest⟩ := runs_bind_iff.mp h
    obtain ⟨hl₁, hext₁, hall⟩ := runs_mapM_of (·.Layered g.Known)
      (P := fun b member id => b.find? member = some id)
      (fun hl hl' hext h => DistinctNames.find?_of_extends hl.nodup hl'.nodup hext h)
      (fun m hmem _ _ _ hl h => by
        obtain ⟨rfl, hfind⟩ := runs_declare (hl.declared (hmembers members hm m hmem)) h
        exact ⟨hl, .refl _, hfind⟩) hl hids
    obtain ⟨id, b₂, hid, hdefine⟩ := runs_bind_iff.mp hrest
    obtain ⟨rfl, hfind⟩ := runs_declare (hl₁.declared hknown) hid
    obtain ⟨hl', hext, hfind', hbody⟩ := define_keeps hl₁ hknown hfind (.inr ⟨_, rfl⟩) hdefine
    exact ⟨hl', (hext₁.mono fun _ _ => trivial).trans hext, .group hm hfind' hbody
      (hall.imp fun _ _ h => DistinctNames.find?_of_extends hl₁.nodup hl'.nodup hext h)⟩
  · next fields hm hf =>
    obtain ⟨slots, b₁, hslots, hrest⟩ := runs_bind_iff.mp h
    obtain ⟨hl₁, hext₁, hall⟩ := runs_mapM_of (P := g.Slot) (·.Layered g.Known)
      (fun _ _ hext h => h.extends (hext.mono fun _ _ => trivial))
      (fun _ _ _ _ _ hl h => field_adds hl h) hl hslots
    obtain ⟨id, b₂, hid, hdefine⟩ := runs_bind_iff.mp hrest
    obtain ⟨rfl, hfind⟩ := runs_declare (hl₁.declared hknown) hid
    obtain ⟨hl', hext, hfind', hbody⟩ := define_keeps hl₁ hknown hfind (.inl ⟨_, rfl⟩) hdefine
    refine ⟨hl', (hext₁.mono fun _ _ => trivial).trans hext,
      .type hm hf hfind' hbody (hall.imp fun _ _ h => h.extends (hext.mono ?_))⟩
    rintro _ hunknown rfl
    exact hunknown hknown
  · next hm hf =>
    rcases hknown with htype | hgroup
    · rw [isType, hf] at htype
      cases htype
    · rw [isGroup, hm] at hgroup
      cases hgroup

/-- In a schema made from a grammar every name has its body. -/
theorem bodies_of_synthesize
    (hmembers : ∀ name members, g.membersOf? name = some members → ∀ m ∈ members, g.Known m)
    (h : Runs (g.synthesize ignored) {} () b) :
    b.Layered g.Known ∧ ∀ name, g.Known name → g.HasBody ignored b name := by
  obtain ⟨b₁, hbare, hfind, hdefine⟩ := exists_bare_of_synthesize h
  have hl : b₁.Layered g.Known := by
    refine ⟨hfind, hbare.nodup, fun hid hunknown => absurd (hbare.known hid) hunknown, ?_⟩
    intro id shape hbody
    rw [hbare.bodies id] at hbody
    cases hbody
  obtain ⟨hl', -, hall⟩ := runs_forM_of (·.Layered g.Known)
    (fun hl hl' hext hkeep hname h => h.extends hl hl' hext hkeep hname)
    (fun hname hl h => define_adds hl hname (hmembers _) h) (fun _ => mem_names_iff.mp) hl hdefine
  exact ⟨hl', fun name hname => hall name (mem_names_iff.mpr hname)⟩

end Grammar

end TypedTree
