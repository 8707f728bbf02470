/-
The types that come out of the types and groups of a table.

Main statements:

* `Registry.IsProductOf`, `Registry.IsUnionOf` — a name is that of a product with given fields,
  or of the union of given names;
* `Grammar.freeze_iff_no_member_cycle` — a schema made from a table can be frozen if and only if
  no name is a member of itself, directly or through other groups;
* `Grammar.types_of_synthesize` — then, in the frozen schema, every type that is not a group as
  well is the product of its fields, and every group is the union of its members;
* `Grammar.not_product_of_group` — a type that is a group as well is not.

Design notes: types of the grammar lead to types of the grammar only, and structural types to
types with shorter names, so only members of groups can close a cycle.
-/
import TypedTree.Proofs.Schema.Cycles
import TypedTree.Proofs.Schema.Evaluation
import TypedTree.Proofs.Synthesis.Bodies

namespace TypedTree

open Builder Synthesis
open Relation (TransGen)

/-! ### Names of products and unions -/

namespace Registry

/-- A name is that of a product of records tagged with it, whose fields read the given ones in
their order. -/
def IsProductOf (reg : Registry) (name : String) (fields : List GrammarField) : Prop :=
  ∃ id slots, reg.find? name = some id ∧
    reg.shape id = .product { source := { tag := name }, fields := slots } ∧
    List.Forall₂ GrammarField.ReadBy fields slots

/-- A name is that of the union of the given names, in their order. -/
def IsUnionOf (reg : Registry) (name : String) (members : List String) : Prop :=
  ∃ id ids, reg.find? name = some id ∧ reg.shape id = .union ids ∧
    List.Forall₂ (fun member id => reg.find? member = some id) members ids

theorem IsUnionOf.not_isProductOf {reg : Registry} {name : String} {members : List String}
    {fields : List GrammarField} (h : reg.IsUnionOf name members) :
    ¬ reg.IsProductOf name fields := by
  rintro ⟨id, slots, hfind, hproduct, -⟩
  obtain ⟨id', ids, hfind', hunion, -⟩ := h
  obtain rfl := Option.some.inj (hfind.symm.trans hfind')
  rw [hproduct] at hunion
  cases hunion

end Registry

/-! ### Bodies that freeze -/

theorem GrammarField.ReadBy.rule?_eq_none {f : GrammarField} {slot : Field} (h : f.ReadBy slot) :
    slot.rule? = none := by
  rw [Field.rule?, h.population, GrammarField.population]
  split_ifs
  · rfl
  · cases f.default <;> rfl

/-- A label is the name of a body that passes the checks of one type. -/
theorem Builder.Labels.settled {b : Builder} {known : String → Prop} {name : String}
    {shape : Shape} (h : b.Labels known name shape) : Settled name shape := by
  obtain ⟨label, hlabel, -⟩ := h.text
  cases shape with
  | union ids =>
    have hlength := (h.several rfl).1
    match ids, hlength with
    | _ :: _ :: _, _ => exact ⟨⟨[], rfl⟩, nofun⟩
  | primitive | array | nullable => exact ⟨⟨[], rfl⟩, nofun⟩
  | nameSet | product | inspect => cases hlabel

namespace Grammar

/-! ### Names of a table -/

section

variable {table : GrammarTable} (h : table.Distinct)
include h

theorem membersOf?_eq_some_iff {group : String} {members : List String} :
    (ofTable table).membersOf? group = some members ↔
      table.membersOf group ≠ [] ∧ members = table.membersOf group := by
  rw [membersOf?_ofTable h.types]
  by_cases hnil : table.membersOf group = [] <;> simp [hnil, eq_comm]

theorem fieldsOf?_ofTable {entry : String × TableType} (hentry : entry ∈ table.types) :
    (ofTable table).fieldsOf? entry.1 = some entry.2.fields := by
  refine lookup_eq_some_of_mem ?_ (List.mem_map.mpr ⟨entry, hentry, rfl⟩)
  rw [ofTable, List.map_map]
  exact h.types

theorem nodup_of_fieldsOf? {name : String} {fields : List GrammarField}
    (hfields : (ofTable table).fieldsOf? name = some fields) : (fields.map (·.name)).Nodup := by
  obtain ⟨entry, hentry, heq⟩ := List.mem_map.mp (mem_of_lookup_eq_some hfields)
  cases heq
  exact h.fields entry hentry

end

variable {table : GrammarTable} {ignored : List (String × String)} {b : Builder} {id : TypeId}

theorem nodup_fieldNames {fields : List GrammarField} {slots : List Field} {name : String}
    (hfields : (fields.map (·.name)).Nodup)
    (hall : List.Forall₂ ((ofTable table).Slot b) (kept ignored name fields) slots) :
    (slots.map (·.name)).Nodup := by
  have hnames : (kept ignored name fields).map (·.name) = slots.map (·.name) := by
    refine List.forall₂_eq_eq_eq ▸ List.forall₂_map_left_iff.mpr
      (List.forall₂_map_right_iff.mpr (hall.imp fun _ _ h => h.name.symm))
  rw [← hnames]
  exact hfields.sublist (List.filter_sublist.map _)

/-- The body of a name of the grammar passes the checks of one type. -/
theorem HasBody.settled (h : table.Distinct) {name : String}
    (hbody : (ofTable table).HasBody ignored b name) :
    ∃ id shape, b.find? name = some id ∧ b.body? id = some shape ∧ Settled name shape := by
  cases hbody with
  | @group id members ids hmembers hfind hbody hall =>
    obtain ⟨hne, rfl⟩ := (membersOf?_eq_some_iff h).mp hmembers
    have hids : ids ≠ [] := by
      rintro rfl
      exact hne (List.length_eq_zero_iff.mp hall.length_eq)
    refine ⟨id, .union ids, hfind, hbody, ⟨[], ?_⟩, nofun⟩
    match ids, hids with
    | _ :: _, _ => rfl
  | type _ hfields hfind hbody hall =>
    refine ⟨_, _, hfind, hbody, ⟨[], Product.plan_eq_nil ?_ ?_⟩, nofun⟩
    · exact nodup_fieldNames (nodup_of_fieldsOf? h hfields) hall
    · intro slot hslot
      obtain ⟨f, -, hf⟩ := exists_of_forall₂_of_mem_right hall hslot
      exact hf.toReadBy.rule?_eq_none

/-! ### Cycles -/

section

variable (h : table.Distinct) (hl : b.Layered (ofTable table).Known)
  (hbodies : ∀ name, (ofTable table).Known name → (ofTable table).HasBody ignored b name)
include h hl hbodies

theorem exists_settled (hid : id.index < b.size) :
    ∃ shape, b.body? id = some shape ∧ Settled (b.name id) shape := by
  by_cases hknown : (ofTable table).Known (b.name id)
  · obtain ⟨id', shape, hfind, hbody, hsettled⟩ := (hbodies _ hknown).settled h
    obtain rfl := Option.some.inj (((DistinctNames.find?_iff hl.nodup).mpr ⟨hid, rfl⟩).symm.trans
      hfind)
    exact ⟨shape, hbody, hsettled⟩
  · obtain ⟨shape, hbody, hlabels⟩ := hl.labels hid hknown
    exact ⟨shape, hbody, hlabels.settled⟩

/-- A name of the grammar leads to its members only. -/
theorem member_of_mem_samePath {next : TypeId} (hknown : (ofTable table).Known (b.name id))
    (hnext : next ∈ b.samePath id) :
    table.Member (b.name id) (b.name next) ∧ (ofTable table).Known (b.name next) := by
  obtain ⟨shape, hshape, hnext⟩ := mem_samePath_iff.mp hnext
  have hfind : b.find? (b.name id) = some id :=
    (DistinctNames.find?_iff hl.nodup).mpr ⟨lt_size_of_body? hshape, rfl⟩
  cases hbodies _ hknown with
  | group hmembers hfind' hbody hall =>
    obtain rfl := Option.some.inj (hfind.symm.trans hfind')
    obtain rfl := Option.some.inj (hshape.symm.trans hbody)
    obtain ⟨member, hmem, hmember⟩ := exists_of_forall₂_of_mem_right hall hnext
    rw [(find?_eq_some hmember).2]
    refine ⟨?_, .inl (isType_of_mem_group hmembers hmem)⟩
    rwa [GrammarTable.Member, ← ((membersOf?_eq_some_iff h).mp hmembers).2]
  | type _ _ hfind' hbody _ =>
    obtain rfl := Option.some.inj (hfind.symm.trans hfind')
    obtain rfl := Option.some.inj (hshape.symm.trans hbody)
    cases hnext

omit h hbodies in
/-- Any other type leads to types with shorter names only. -/
theorem name_lt_of_mem_samePath {next : TypeId} (hunknown : ¬ (ofTable table).Known (b.name id))
    (hnext : next ∈ b.samePath id) :
    (b.name next).toList.length < (b.name id).toList.length := by
  obtain ⟨shape, hshape, hnext⟩ := mem_samePath_iff.mp hnext
  obtain ⟨shape', hshape', hlabels⟩ := hl.labels (lt_size_of_body? hshape) hunknown
  obtain rfl := Option.some.inj (hshape.symm.trans hshape')
  exact hlabels.name_lt hnext

/-- A type that leads to itself is a group among its own members. -/
theorem member_of_onCycle (hcycle : Graph.OnCycle b.samePath id) :
    TransGen table.Member (b.name id) (b.name id) := by
  -- Once on a name of the grammar, the way stays on them; before, names become shorter.
  have hknown : (ofTable table).Known (b.name id) := by
    by_contra hunknown
    have hleads : ∀ {last}, TransGen (fun id next => next ∈ b.samePath id) id last →
        (ofTable table).Known (b.name last) ∨
          (b.name last).toList.length < (b.name id).toList.length := by
      intro last hlast
      induction hlast with
      | single hnext => exact .inr (name_lt_of_mem_samePath hl hunknown hnext)
      | @tail middle last _ hnext ih =>
        by_cases hmiddle : (ofTable table).Known (b.name middle)
        · exact .inl (member_of_mem_samePath h hl hbodies hmiddle hnext).2
        · have hlt := name_lt_of_mem_samePath hl hmiddle hnext
          have hlt' := ih.resolve_left hmiddle
          exact .inr (by omega)
    rcases hleads hcycle with hknown | hlt
    · exact hunknown hknown
    · omega
  have hmembers : ∀ {last}, TransGen (fun id next => next ∈ b.samePath id) id last →
      TransGen table.Member (b.name id) (b.name last) ∧ (ofTable table).Known (b.name last) := by
    intro last hlast
    induction hlast with
    | single hnext =>
      obtain ⟨hmember, hnextKnown⟩ := member_of_mem_samePath h hl hbodies hknown hnext
      exact ⟨.single hmember, hnextKnown⟩
    | tail _ hnext ih =>
      obtain ⟨hmember, hnextKnown⟩ := member_of_mem_samePath h hl hbodies ih.2 hnext
      exact ⟨ih.1.tail hmember, hnextKnown⟩
  exact (hmembers hcycle).1

omit hl in
/-- A group leads to its members. -/
theorem exists_mem_samePath_of_member {group member : String}
    (hmember : table.Member group member) :
    ∃ id next, b.find? group = some id ∧ b.find? member = some next ∧ next ∈ b.samePath id := by
  have hne : table.membersOf group ≠ [] := List.ne_nil_of_mem hmember
  have hmembers : (ofTable table).membersOf? group = some (table.membersOf group) :=
    (membersOf?_eq_some_iff h).mpr ⟨hne, rfl⟩
  have hknown : (ofTable table).Known group := .inr (by rw [isGroup, hmembers]; rfl)
  cases hbodies group hknown with
  | group hmembers' hfind hbody hall =>
    obtain rfl := Option.some.inj (hmembers.symm.trans hmembers')
    obtain ⟨next, hnext, hfindNext⟩ := exists_of_forall₂_of_mem_left hall hmember
    exact ⟨_, next, hfind, hfindNext, mem_samePath_iff.mpr ⟨_, hbody, hnext⟩⟩
  | type hapart => rw [hmembers] at hapart; cases hapart

omit hl in
theorem exists_onCycle_of_member {name : String} (hcycle : TransGen table.Member name name) :
    ∃ id, Graph.OnCycle b.samePath id := by
  have hleads : ∀ {last}, TransGen table.Member name last → ∃ id id', b.find? name = some id ∧
      b.find? last = some id' ∧ TransGen (fun id next => next ∈ b.samePath id) id id' := by
    intro last hlast
    induction hlast with
    | single hmember =>
      obtain ⟨id, next, hfind, hfindNext, hnext⟩ :=
        exists_mem_samePath_of_member h hbodies hmember
      exact ⟨id, next, hfind, hfindNext, .single hnext⟩
    | tail _ hmember ih =>
      obtain ⟨id, middle, hfind, hfindMiddle, hleads⟩ := ih
      obtain ⟨middle', next, hfind', hfindNext, hnext⟩ :=
        exists_mem_samePath_of_member h hbodies hmember
      obtain rfl := Option.some.inj (hfindMiddle.symm.trans hfind')
      exact ⟨id, next, hfind, hfindNext, hleads.tail hnext⟩
  obtain ⟨id, id', hfind, hfind', hleads⟩ := hleads hcycle
  obtain rfl := Option.some.inj (hfind.symm.trans hfind')
  exact ⟨id, hleads⟩

end

/-! ### Schemas of tables -/

section

variable (h : table.Distinct) (hrun : Runs ((ofTable table).synthesize ignored) {} () b)
include h hrun

omit h in
theorem bodies_of_table : b.Layered (ofTable table).Known ∧
    ∀ name, (ofTable table).Known name → (ofTable table).HasBody ignored b name :=
  bodies_of_synthesize (fun _ _ hmembers _ hm => .inl (isType_of_mem_group hmembers hm)) hrun

/-- A schema made from a table can be frozen if and only if no name is a member of itself. -/
theorem freeze_iff_no_member_cycle :
    ((∃ reg, b.freeze = .ok reg) ↔ ∀ name, ¬ TransGen table.Member name name) ∧
      ∀ e, b.freeze = .error e →
        ∃ name, e = .unionCycle name ∧ TransGen table.Member name name := by
  obtain ⟨hl, hbodies⟩ := bodies_of_table hrun
  obtain ⟨hiff, herror⟩ := freeze_iff_acyclic fun id => exists_settled h hl hbodies
  refine ⟨hiff.trans ⟨fun hnone name hcycle => ?_, fun hnone id hcycle => ?_⟩, fun e he => ?_⟩
  · obtain ⟨id, hid⟩ := exists_onCycle_of_member h hbodies hcycle
    exact hnone id hid
  · exact hnone _ (member_of_onCycle h hl hbodies hcycle)
  · obtain ⟨id, rfl, hcycle⟩ := herror e he
    exact ⟨b.name id, rfl, member_of_onCycle h hl hbodies hcycle⟩

variable {reg : Registry} (hreg : b.freeze = .ok reg)
include hreg

/-- A type that is no group is the product of its fields that may not be left out. -/
theorem isProductOf_of_type {entry : String × TableType} (hentry : entry ∈ table.types)
    (hapart : table.membersOf entry.1 = []) :
    reg.IsProductOf entry.1 (kept ignored entry.1 entry.2.fields) := by
  have hfields := fieldsOf?_ofTable h hentry
  cases (bodies_of_table hrun).2 entry.1 (.inl (by rw [isType, hfields]; rfl)) with
  | group hmembers => exact absurd hapart ((membersOf?_eq_some_iff h).mp hmembers).1
  | type _ hfields' hfind hbody hall =>
    obtain rfl := Option.some.inj (hfields.symm.trans hfields')
    refine ⟨_, _, by rw [find?_of_freeze hreg, hfind], ?_, hall.imp fun _ _ h => h.toReadBy⟩
    rw [shape_of_freeze hreg, hbody]
    rfl

/-- A group is the union of its members. -/
theorem isUnionOf_of_group {group : String} (hgroup : table.membersOf group ≠ []) :
    reg.IsUnionOf group (table.membersOf group) := by
  have hmembers := (membersOf?_eq_some_iff h).mpr ⟨hgroup, rfl⟩
  cases (bodies_of_table hrun).2 group (.inr (by rw [isGroup, hmembers]; rfl)) with
  | group hmembers' hfind hbody hall =>
    obtain rfl := Option.some.inj (hmembers.symm.trans hmembers')
    refine ⟨_, _, by rw [find?_of_freeze hreg, hfind], by rw [shape_of_freeze hreg, hbody]; rfl,
      hall.imp fun _ _ h => ?_⟩
    rw [find?_of_freeze hreg, h]
  | type hapart => rw [hmembers] at hapart; cases hapart

end

/-- A name is a member of itself only if a type is a group as well. -/
theorem not_member_cycle (hapart : ∀ entry ∈ table.types, table.membersOf entry.1 = [])
    (name : String) : ¬ TransGen table.Member name name := by
  intro hcycle
  obtain ⟨group, -, hmember⟩ := Relation.TransGen.tail'_iff.mp hcycle
  obtain ⟨member, hmember', -⟩ := Relation.TransGen.head'_iff.mp hcycle
  obtain ⟨entry, hentry, rfl⟩ := List.mem_map.mp hmember
  have hnil := hapart entry (List.mem_filter.mp hentry).1
  rw [GrammarTable.Member, hnil] at hmember'
  cases hmember'

/-- Where no type is a group as well, a schema made from a table can be frozen. In general it
can if and only if no name is a member of itself, directly or through other groups; there is no
other fault. Every type that is no group is then the product of its fields that may not be left
out, in their order and each read from its own key, and every group is the union of its members
in the order of the table. -/
theorem types_of_synthesize (h : table.Distinct)
    (hrun : Runs ((ofTable table).synthesize ignored) {} () b) :
    ((∀ entry ∈ table.types, table.membersOf entry.1 = []) → ∃ reg, b.freeze = .ok reg) ∧
    ((∃ reg, b.freeze = .ok reg) ↔ ∀ name, ¬ TransGen table.Member name name) ∧
    (∀ e, b.freeze = .error e →
      ∃ name, e = .unionCycle name ∧ TransGen table.Member name name) ∧
    ∀ reg, b.freeze = .ok reg →
      (∀ entry ∈ table.types, table.membersOf entry.1 = [] →
        reg.IsProductOf entry.1 (kept ignored entry.1 entry.2.fields)) ∧
      ∀ group, table.membersOf group ≠ [] → reg.IsUnionOf group (table.membersOf group) := by
  obtain ⟨hiff, herror⟩ := freeze_iff_no_member_cycle h hrun
  refine ⟨fun hapart => hiff.mpr (not_member_cycle hapart), hiff, herror, fun reg hreg => ⟨?_, ?_⟩⟩
  · exact fun entry hentry hapart => isProductOf_of_type h hrun hreg hentry hapart
  · exact fun group hgroup => isUnionOf_of_group h hrun hreg hgroup

/-- Two types of one group, whose members may hold each other. -/
def forest : GrammarTable where
  name := "forest"
  types := [
    ("Leaf", { aliases := ["Tree"], fields := [
      { name := "value", descriptor := some (.kind "number") },
      { name := "color", descriptor := some (.kind "string"), optional := true }] }),
    ("Branch", { aliases := ["Tree"], fields := [
      { name := "trees", descriptor := some (.chain [.kind "array", .each (.nodeTypes ["Tree"])]) }
    ] })]

theorem types_of_synthesize_forest : ∃ b reg,
    Runs ((ofTable forest).synthesize [("Leaf", "color")]) {} () b ∧ b.freeze = .ok reg ∧
      reg.IsProductOf "Leaf" [{ name := "value", descriptor := some (.kind "number") }] ∧
      reg.IsUnionOf "Tree" ["Leaf", "Branch"] := by
  have hdistinct : forest.Distinct := ⟨by decide, by decide⟩
  obtain ⟨⟨⟩, b, hrun⟩ : ∃ a b', Runs ((ofTable forest).synthesize [("Leaf", "color")]) {} a b' :=
    exists_runs_of_check (by decide +kernel)
  obtain ⟨hfreeze, -, -, htypes⟩ := types_of_synthesize hdistinct hrun
  obtain ⟨reg, hreg⟩ := hfreeze (by decide)
  obtain ⟨hproduct, hunion⟩ := htypes reg hreg
  exact ⟨b, reg, hrun, hreg, hproduct _ List.mem_cons_self (by decide), hunion "Tree" (by decide)⟩

/-- A type in a group of its own name keeps the schema from being frozen, and a type whose name
is that of a group is no product. -/
theorem not_product_of_group :
    (¬ ∀ (table : GrammarTable) (ignored : List (String × String)) (b : Builder), table.Distinct →
      Runs ((ofTable table).synthesize ignored) {} () b → ∃ reg, b.freeze = .ok reg) ∧
    ¬ ∀ (table : GrammarTable) (ignored : List (String × String)) (b : Builder) (reg : Registry),
      table.Distinct → Runs ((ofTable table).synthesize ignored) {} () b → b.freeze = .ok reg →
      ∀ entry ∈ table.types, reg.IsProductOf entry.1 (kept ignored entry.1 entry.2.fields) := by
  constructor
  · intro hall
    let own : GrammarTable := { name := "", types := [("A", { aliases := ["A"] })] }
    have hdistinct : own.Distinct := ⟨by decide, by decide⟩
    obtain ⟨⟨⟩, b, hrun⟩ : ∃ a b', Runs ((ofTable own).synthesize []) {} a b' :=
      exists_runs_of_check (by decide +kernel)
    have hmember : own.Member "A" "A" := List.mem_singleton.mpr rfl
    exact (freeze_iff_no_member_cycle hdistinct hrun).1.mp (hall own [] b hdistinct hrun) "A"
      (.single hmember)
  · intro hall
    let shared : GrammarTable := { name := "", types := [("A", {}), ("B", { aliases := ["A"] })] }
    have hdistinct : shared.Distinct := ⟨by decide, by decide⟩
    obtain ⟨⟨⟩, b, hrun⟩ : ∃ a b', Runs ((ofTable shared).synthesize []) {} a b' :=
      exists_runs_of_check (by decide +kernel)
    have hmember : ∀ {group member}, shared.Member group member → group = "A" ∧ member = "B" := by
      intro group member h
      obtain ⟨entry, hentry, rfl⟩ := List.mem_map.mp h
      obtain ⟨hentry, halias⟩ := List.mem_filter.mp hentry
      simp only [shared, List.mem_cons, List.not_mem_nil, or_false] at hentry
      rcases hentry with rfl | rfl
      · simp at halias
      · exact ⟨by simpa using halias, rfl⟩
    obtain ⟨reg, hreg⟩ : ∃ reg, b.freeze = .ok reg := by
      refine (freeze_iff_no_member_cycle hdistinct hrun).1.mpr fun name hcycle => ?_
      obtain ⟨_, -, hlast⟩ := Relation.TransGen.tail'_iff.mp hcycle
      obtain ⟨_, hfirst, -⟩ := Relation.TransGen.head'_iff.mp hcycle
      exact absurd ((hmember hfirst).1.symm.trans (hmember hlast).2) (by decide)
    have hgroup : shared.membersOf "A" ≠ [] := by decide
    exact (isUnionOf_of_group hdistinct hrun hreg hgroup).not_isProductOf
      (hall shared [] b reg hdistinct hrun hreg _ List.mem_cons_self)

end Grammar

end TypedTree
