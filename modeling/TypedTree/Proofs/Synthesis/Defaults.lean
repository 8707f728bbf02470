/-
Nodes of a schema made from a table, and the defaults in them.

The table gives defaults as literals, and nothing compares them with the types of their fields.
Main statements:

* `Builder.TakesNull.isInstance_null` — what takes `null` in a schema has it as an instance;
* `Grammar.exists_slots_of_product` — a product is that of a type of the table;
* `Grammar.Fills` — the ways for a field to get its value: an instance of its type, or a default;
* `Grammar.fills_of_translate` — every field of every node of a translated source gets its value
  in one of these ways;
* `Grammar.not_conforms_of_default` — no default need be an instance.

Design notes: the `null` of an optional field without a default of its own is an instance of the
type of the field, unless a name of the table is mistaken for the name of a type with `null`.
-/
import TypedTree.Proofs.Synthesis.Types
import TypedTree.Proofs.Translation.Bounded
import TypedTree.Proofs.Translation.Membership

namespace TypedTree

open Builder Synthesis

/-! ### Literals -/

mutual

theorem not_occursIn_ofLiteral {n : Node} : ∀ literal : Json, ¬ n.OccursIn (.ofLiteral literal)
  | .null => Value.Plain.null.not_occursIn
  | .bool b => (Value.Plain.bool b).not_occursIn
  | .num x => (Value.Plain.number x).not_occursIn
  | .str s => (Value.Plain.string s).not_occursIn
  | .obj entries => (Value.Plain.any (.obj entries)).not_occursIn
  | .arr items => fun h => by
    obtain ⟨v, hv, hn⟩ := Node.occursIn_list_iff.mp h
    exact not_occursIn_ofLiterals items v hv hn

theorem not_occursIn_ofLiterals {n : Node} :
    ∀ (literals : List Json), ∀ v ∈ Value.ofLiterals literals, ¬ n.OccursIn v
  | [], _, hv => absurd hv List.not_mem_nil
  | literal :: rest, v, hv => by
    rcases List.mem_cons.mp hv with rfl | hv
    · exact not_occursIn_ofLiteral literal
    · exact not_occursIn_ofLiterals rest v hv

end

/-- A default of a field is a literal of the table, or `null`. -/
theorem GrammarField.of_population_eq_default {f : GrammarField} {v : Value}
    (h : f.population = .default v) :
    (∃ literal, f.default = some literal ∧ v = .ofLiteral literal) ∨
      f.optional = true ∧ f.default = none ∧ v = .null := by
  rw [population] at h
  cases hdefault : f.default with
  | none =>
    rw [hdefault] at h
    split at h
    · next hoptional =>
      cases h
      exact .inr ⟨hoptional, rfl, rfl⟩
    · cases h
  | some literal =>
    rw [hdefault] at h
    refine .inl ⟨literal, rfl, ?_⟩
    split at h <;> cases h <;> rfl

theorem GrammarField.ReadBy.not_occursIn_default {f : GrammarField} {slot : Field} {v : Value}
    {n : Node} (h : f.ReadBy slot) (hv : slot.population = .default v) : ¬ n.OccursIn v := by
  rcases GrammarField.of_population_eq_default (h.population.symm.trans hv) with
    ⟨literal, -, rfl⟩ | ⟨-, -, rfl⟩
  · exact not_occursIn_ofLiteral literal
  · exact Value.Plain.null.not_occursIn

/-! ### Types with `null` -/

/-- What takes `null` in a schema has it as an instance. -/
theorem Builder.TakesNull.isInstance_null {b : Builder} {reg : Registry} {id : TypeId}
    (h : b.TakesNull id) (hreg : b.freeze = .ok reg) : reg.isInstance id .null = true := by
  rcases h with ⟨inner, hbody⟩ | hbody
  · have hshape : reg.shape id = .nullable inner := by rw [shape_of_freeze hreg, hbody]; rfl
    rw [Registry.isInstance_eq, hshape]
    rfl
  · have hshape : reg.shape id = .primitive .null := by rw [shape_of_freeze hreg, hbody]; rfl
    rw [Registry.isInstance_eq, hshape]
    rfl

/-! ### Nodes that do not conform -/

namespace Registry

variable {reg : Registry}

/-- Whether a value is no instance of a type without parts. -/
def isAlien (reg : Registry) (id : TypeId) (v : Value) : Bool :=
  match reg.shape id with
  | .primitive kind => !kind.holds v
  | .product _ => v.asNode?.isNone
  | _ => false

theorem isInstance_eq_false_of_isAlien {id : TypeId} {v : Value} (h : reg.isAlien id v = true) :
    reg.isInstance id v = false := by
  rw [isAlien] at h
  rw [isInstance_eq]
  split at h
  · next kind hshape =>
    rw [hshape]
    simpa using h
  · next hshape =>
    rw [hshape]
    simp [Option.isNone_iff_eq_none.mp h]
  · cases h

/-- Whether a value is a node with a field that holds no instance of its type. -/
def isMisfit (reg : Registry) (v : Value) : Bool :=
  match v with
  | .node id _ entries _ =>
    match (reg.shape id).asProduct? with
    | some p => (p.fields.zip entries).any fun x => reg.isAlien x.1.type x.2.2
    | none => false
  | _ => false

theorem not_conforms_of_isMisfit {v : Value} (h : reg.isMisfit v = true) :
    ∃ n : Node, v = n.toValue ∧ ¬ reg.Conforms n := by
  unfold isMisfit at h
  split at h
  · next id typeName entries metadata =>
    refine ⟨⟨id, typeName, entries, metadata⟩, rfl, ?_⟩
    rintro ⟨p, hshape, -, hall⟩
    rw [hshape] at h
    obtain ⟨⟨field, entry⟩, hmem, halien⟩ := List.any_eq_true.mp h
    have hinst := (List.forall₂_iff_zip.mp hall).2 hmem
    rw [isInstance_eq_false_of_isAlien halien] at hinst
    cases hinst.2
  · cases h

end Registry

namespace Grammar

/-! ### Products of a table -/

/-- The ways for a field to get its value from a record: an instance of its type, a literal of
the table, or the `null` of an optional field where a name is in the way of types with `null`. -/
inductive Fills (g : Grammar) (reg : Registry) (record : Json.Record) (f : GrammarField)
    (type : TypeId) (v : Value) : Prop
  | member (h : reg.isInstance type v = true)
  | literal {literal : Json} (default : f.default = some literal) (value : v = .ofLiteral literal)
      (missing : (record.get? f.name).all Json.isNull = true)
  | null (optional : f.optional = true) (default : f.default = none) (value : v = .null)
      (missing : (record.get? f.name).all Json.isNull = true) (taken : ¬ NullFree g.Known)

section

variable {table : GrammarTable} {ignored : List (String × String)} {b : Builder} {reg : Registry}
  {limit : Nat} {id : TypeId} {p : Product}
  (hrun : Runs ((ofTable table).synthesize ignored) {} () b) (hreg : b.freeze = .ok reg)
include hrun hreg

/-- A product is that of a type of the table. -/
theorem exists_slots_of_product (hshape : reg.shape id = .product p) :
    ∃ fields, (ofTable table).fieldsOf? (reg.name id) = some fields ∧
      List.Forall₂ ((ofTable table).Slot b) (kept ignored (reg.name id) fields) p.fields := by
  obtain ⟨hl, hbodies⟩ := bodies_of_table hrun
  obtain ⟨shape, hbody⟩ : ∃ shape, b.body? id = some shape := by
    cases hbody : b.body? id with
    | some shape => exact ⟨shape, rfl⟩
    | none =>
      rw [shape_of_freeze hreg, hbody] at hshape
      cases hshape
  obtain rfl : shape = .product p := by rwa [shape_of_freeze hreg, hbody] at hshape
  rw [name_of_freeze hreg]
  -- A structural type has a body that its name is the label of, so it is no product.
  have hknown : (ofTable table).Known (b.name id) := by
    by_contra hunknown
    obtain ⟨shape, hbody', hlabels⟩ := hl.labels (lt_size_of_body? hbody) hunknown
    obtain rfl := Option.some.inj (hbody.symm.trans hbody')
    exact absurd hlabels.asProduct?_eq_none nofun
  have hfind : b.find? (b.name id) = some id :=
    (DistinctNames.find?_iff hl.nodup).mpr ⟨lt_size_of_body? hbody, rfl⟩
  cases hbodies _ hknown with
  | group _ hfind' hbody' _ =>
    obtain rfl := Option.some.inj (hfind.symm.trans hfind')
    cases hbody.symm.trans hbody'
  | type _ hfields hfind' hbody' hall =>
    obtain rfl := Option.some.inj (hfind.symm.trans hfind')
    cases hbody.symm.trans hbody'
    exact ⟨_, hfields, hall⟩

omit hrun in
/-- What a field of a product holds is filled in as the table says. -/
theorem fills_of_holds {f : GrammarField} {slot : Field} {record : Json.Record} {v : Value}
    (hslot : (ofTable table).Slot b f slot) (h : reg.Holds record slot v) :
    (ofTable table).Fills reg record f slot.type v := by
  cases h with
  | member h => exact .member h
  | default hv hmissing =>
    rw [Field.sourceIn, hslot.source] at hmissing
    rcases GrammarField.of_population_eq_default (hslot.population.symm.trans hv) with
      ⟨literal, hdefault, rfl⟩ | ⟨hoptional, hdefault, rfl⟩
    · exact .literal hdefault rfl hmissing
    · by_cases hfree : NullFree (ofTable table).Known
      · exact .member ((hslot.takesNull hoptional hfree).2.isInstance_null hreg)
      · exact .null hoptional hdefault rfl hmissing hfree

/-- Every node of a translated source is built from a record as a type of the table, and every
field of it is an instance of the type of the field, except that a field whose key is missing or
`null` in the record may hold the literal that the table gives as its default, or, where a name
of the table is in the way of types with `null`, the `null` of an optional field. -/
theorem fills_of_translate {source : Json} {v : Value}
    (hv : reg.translate limit id source = .ok v) {n : Node} (hn : n.OccursIn v) :
    ∃ (fields : List GrammarField) (p : Product) (s : Request) (record : Json.Record),
      (ofTable table).fieldsOf? n.typeName = some fields ∧ reg.shape n.id = .product p ∧
      reg.Reaches limit (.whole id source) s ∧ reg.Builds limit s record p n ∧
      List.Forall₂ (fun field entry => entry.1 = field.name ∧
        ∃ f ∈ kept ignored n.typeName fields, f.ReadBy field ∧
          (ofTable table).Fills reg record f field.type entry.2) p.fields n.fields := by
  have hplan : reg.Planned := planned_of_freeze hreg
  have hread : ∀ {id p field}, reg.shape id = .product p → field ∈ p.fields →
      ∃ f, GrammarField.ReadBy f field := by
    intro id p field hshape hmem
    obtain ⟨fields, -, hall⟩ := exists_slots_of_product hrun hreg hshape
    obtain ⟨f, -, hf⟩ := exists_of_forall₂_of_mem_right hall hmem
    exact ⟨f, hf.toReadBy⟩
  -- No default of a table holds a node and no field is computed, so the node was built from a
  -- record.
  obtain ⟨s, record, p, hreaches, hbuilds⟩ := Registry.exists_builds_of_translate hplan
    (fun hshape hmem hd n => by
      obtain ⟨f, hf⟩ := hread hshape hmem
      exact hf.not_occursIn_default hd)
    (fun hshape hmem => by
      obtain ⟨f, hf⟩ := hread hshape hmem
      exact hf.rule?_eq_none) hv hn
  have hshape : reg.shape n.id = .product p := by rw [hbuilds.id]; exact hbuilds.shape
  obtain ⟨fields, hfields, hslots⟩ := exists_slots_of_product hrun hreg hshape
  obtain ⟨hname, hentries⟩ := hbuilds.holds hplan fun field hmem => by
    obtain ⟨f, hf⟩ := hread hshape hmem
    exact hf.rule?_eq_none
  rw [← hname] at hfields hslots
  refine ⟨fields, p, s, record, hfields, hshape, hreaches, hbuilds, ?_⟩
  refine forall₂_imp_of_mem_left ?_ hentries
  intro field entry hmem hentry
  obtain ⟨f, hf, hslot⟩ := exists_of_forall₂_of_mem_right hslots hmem
  exact ⟨hentry.1, f, hf, hslot.toReadBy, fills_of_holds hreg hslot hentry.2⟩

end

/-! ### Defaults that do not fit -/

/-- A type with a field that takes `null` alone and is five by default. -/
def fiveByDefault : GrammarTable where
  name := "five"
  types := [("T", { fields := [
    { name := "a", descriptor := some (.kind "null"), default := some (.num (.int 5)) }] })]

/-- A type with an optional field for nodes of its own, and a type with the name that goes with
that field. -/
def nullableByName : GrammarTable where
  name := "nullable"
  types := [
    ("T", { fields := [
      { name := "a", descriptor := some (.nodeTypes ["T"]), optional := true }] }),
    ("Nullable<T>", {})]

/-- A record without fields. -/
def bare : Json := .obj [("type", .str "T")]

theorem fills_of_translate_fiveByDefault : ∃ (b : Builder) (reg : Registry) (v : Value) (n : Node),
    Runs ((ofTable fiveByDefault).synthesize []) {} () b ∧ b.freeze = .ok reg ∧
      reg.translate 1 ⟨0⟩ bare = .ok v ∧ n.OccursIn v ∧
      ∃ fields p record, (ofTable fiveByDefault).fieldsOf? n.typeName = some fields ∧
        reg.shape n.id = .product p ∧
        List.Forall₂ (fun field entry => entry.1 = field.name ∧
          ∃ f ∈ kept [] n.typeName fields, f.ReadBy field ∧
            (ofTable fiveByDefault).Fills reg record f field.type entry.2) p.fields n.fields := by
  obtain ⟨reg, hreg, hcheck⟩ : ∃ reg, (ofTable fiveByDefault).registry = .ok reg ∧
      reg.translatesWithin 1 2 ⟨0⟩ bare (·.asNode?.isSome) = true :=
    exists_of_check (by decide +kernel)
  obtain ⟨b, hrun, hfreeze⟩ := runs_of_registry hreg
  obtain ⟨v, hv, hnode⟩ := Registry.exists_of_translatesWithin hcheck
  obtain ⟨n, hn⟩ := Option.isSome_iff_exists.mp hnode
  have hoccurs : n.OccursIn v := by
    rw [Value.eq_of_asNode?_eq_some hn]
    exact .here n
  obtain ⟨fields, p, -, record, hfields, hshape, -, -, hall⟩ :=
    fills_of_translate hrun hfreeze hv hoccurs
  exact ⟨b, reg, v, n, hrun, hfreeze, hv, hoccurs, fields, p, record, hfields, hshape, hall⟩

/-- A node whose field holds no instance of its type comes out of a table. -/
theorem exists_not_conforms (table : GrammarTable) (h : (match (ofTable table).registry with
      | .ok reg => reg.translatesWithin 1 2 ⟨0⟩ bare reg.isMisfit
      | .error _ => false) = true) :
    ∃ (b : Builder) (reg : Registry) (v : Value) (n : Node),
      Runs ((ofTable table).synthesize []) {} () b ∧ b.freeze = .ok reg ∧
      reg.translate 1 ⟨0⟩ bare = .ok v ∧ n.OccursIn v ∧ ¬ reg.Conforms n := by
  obtain ⟨reg, hreg, hcheck⟩ := exists_of_check h
  obtain ⟨b, hrun, hfreeze⟩ := runs_of_registry hreg
  obtain ⟨v, hv, hmisfit⟩ := Registry.exists_of_translatesWithin hcheck
  obtain ⟨n, rfl, hn⟩ := Registry.not_conforms_of_isMisfit hmisfit
  exact ⟨b, reg, _, n, hrun, hfreeze, hv, .here n, hn⟩

/-- A field may hold a default that is no instance of its type, whatever the names of the table;
and so may a field of a table without defaults, where a name is in the way. -/
theorem not_conforms_of_default :
    (¬ ∀ (table : GrammarTable) (ignored : List (String × String)) (b : Builder) (reg : Registry)
      (limit : Nat) (id : TypeId) (source : Json) (v : Value) (n : Node),
      NullFree (ofTable table).Known → Runs ((ofTable table).synthesize ignored) {} () b →
      b.freeze = .ok reg → reg.translate limit id source = .ok v → n.OccursIn v →
      reg.Conforms n) ∧
    ¬ ∀ (table : GrammarTable) (ignored : List (String × String)) (b : Builder) (reg : Registry)
      (limit : Nat) (id : TypeId) (source : Json) (v : Value) (n : Node),
      (∀ entry ∈ table.types, ∀ f ∈ entry.2.fields, f.default = none) →
      Runs ((ofTable table).synthesize ignored) {} () b → b.freeze = .ok reg →
      reg.translate limit id source = .ok v → n.OccursIn v → reg.Conforms n := by
  constructor
  · intro hall
    have hfree : NullFree (ofTable fiveByDefault).Known := by
      intro name hknown
      obtain rfl : name = "T" := by
        have hname : name ∈ (ofTable fiveByDefault).names := mem_names_iff.mpr hknown
        exact List.mem_singleton.mp hname
      exact ⟨by decide, by decide⟩
    obtain ⟨b, reg, v, n, hrun, hreg, hv, hn, hnot⟩ :=
      exists_not_conforms fiveByDefault (by decide +kernel)
    exact hnot (hall fiveByDefault [] b reg 1 ⟨0⟩ bare v n hfree hrun hreg hv hn)
  · intro hall
    obtain ⟨b, reg, v, n, hrun, hreg, hv, hn, hnot⟩ :=
      exists_not_conforms nullableByName (by decide +kernel)
    exact hnot (hall nullableByName [] b reg 1 ⟨0⟩ bare v n (by decide) hrun hreg hv hn)

end Grammar

end TypedTree
