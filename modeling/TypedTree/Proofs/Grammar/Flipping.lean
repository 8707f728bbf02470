/-
Memberships of types, turned into groups with members.

A table says for each type which groups it names, and may name a group more than once. Main
statements:

* `GrammarTable.mentions` — the groups that are named, one after another;
* `Grammar.keys_groups_ofTable` — groups are taken up as they are mentioned;
* `Grammar.mem_membersOf?_iff` — a type is a member of the groups that it names;
* `Grammar.names_ofTable` — the names of a grammar: its types, then the groups that are no types;
* `Grammar.ofTable_inverts` — the groups of a grammar say the same as its table, each group once, in
  the order of first mention, and each member once, in the order of the table.

Design notes: the entries of a table are a list here. That no type has two of them is what
`GrammarTable.distinct_of_read` says of every table that is read.
-/
import TypedTree.Proofs.Grammar.Membership
import TypedTree.Proofs.Mention

namespace TypedTree

namespace GrammarTable

/-- The groups that the types of a table name, one after another. -/
def mentions (table : GrammarTable) : List String :=
  table.types.flatMap fun entry => entry.2.aliases

theorem mem_membersOf_iff {table : GrammarTable} {group type : String} :
    type ∈ table.membersOf group ↔
      ∃ entry ∈ table.types, entry.1 = type ∧ group ∈ entry.2.aliases := by
  rw [membersOf, List.mem_map]
  constructor
  · rintro ⟨entry, hentry, rfl⟩
    obtain ⟨hmem, hgroup⟩ := List.mem_filter.mp hentry
    exact ⟨entry, hmem, rfl, by simpa using hgroup⟩
  · rintro ⟨entry, hmem, rfl, hgroup⟩
    exact ⟨entry, List.mem_filter.mpr ⟨hmem, by simpa using hgroup⟩, rfl⟩

theorem membersOf_sublist (table : GrammarTable) (group : String) :
    (table.membersOf group).Sublist (table.types.map (·.1)) := List.filter_sublist.map _

end GrammarTable

namespace Grammar

variable {table : GrammarTable} {group name : String}

/-! ### Groups -/

/-- A group is there from its first mention on. -/
theorem keys_addMember (type : String) (groups : List (String × List String)) (group : String) :
    (addMember type groups group).map (·.1) =
      if group ∈ groups.map (·.1) then groups.map (·.1) else groups.map (·.1) ++ [group] :=
  Entries.keys_set _ _ _

theorem keys_addType (groups : List (String × List String)) (entry : String × TableType) :
    (addType groups entry).map (·.1) =
      entry.2.aliases.foldl (fun seen b => if b ∈ seen then seen else seen ++ [b])
        (groups.map (·.1)) := by
  unfold addType
  generalize entry.2.aliases = aliases
  induction aliases generalizing groups with
  | nil => rfl
  | cons group aliases ih => rw [List.foldl_cons, ih, keys_addMember, List.foldl_cons]

/-- Groups are taken up as they are mentioned, each once. -/
theorem keys_groups_ofTable (table : GrammarTable) :
    (ofTable table).groups.map (·.1) =
      table.mentions.foldl (fun seen b => if b ∈ seen then seen else seen ++ [b]) [] := by
  have hrun : ∀ (types : List (String × TableType)) (groups : List (String × List String)),
      (types.foldl addType groups).map (·.1) =
        (types.flatMap fun entry => entry.2.aliases).foldl
          (fun seen b => if b ∈ seen then seen else seen ++ [b]) (groups.map (·.1)) := by
    intro types
    induction types with
    | nil => exact fun _ => rfl
    | cons entry types ih =>
      intro groups
      rw [List.foldl_cons, ih, keys_addType, List.flatMap_cons, List.foldl_append]
  exact hrun table.types []

theorem mem_keys_groups_iff :
    group ∈ (ofTable table).groups.map (·.1) ↔ group ∈ table.mentions := by
  rw [keys_groups_ofTable, mem_foldl_distinct]
  simp

theorem byFirstMention_groups (table : GrammarTable) :
    ByFirstMention table.mentions ((ofTable table).groups.map (·.1)) := by
  rw [keys_groups_ofTable]
  exact byFirstMention_distinct table.mentions

/-! ### Members -/

section

variable (h : (table.types.map (·.1)).Nodup)
include h

/-- The members of a group are the types that name it, of which there is one at least. -/
theorem membersOf?_ofTable_eq_some {members : List String} :
    (ofTable table).membersOf? group = some members ↔
      table.membersOf group ≠ [] ∧ members = table.membersOf group := by
  rw [membersOf?_ofTable h]
  by_cases hnil : table.membersOf group = [] <;> simp [hnil, eq_comm]

theorem mem_membersOf?_iff {type : String} :
    (∃ members, (ofTable table).membersOf? group = some members ∧ type ∈ members) ↔
      ∃ entry ∈ table.types, entry.1 = type ∧ group ∈ entry.2.aliases := by
  rw [← GrammarTable.mem_membersOf_iff]
  constructor
  · rintro ⟨members, hmembers, hmem⟩
    rwa [((membersOf?_ofTable_eq_some h).mp hmembers).2] at hmem
  · intro hmem
    exact ⟨_, (membersOf?_ofTable_eq_some h).mpr ⟨List.ne_nil_of_mem hmem, rfl⟩, hmem⟩

/-- A group has members if and only if a type names it. -/
theorem exists_membersOf?_iff :
    (∃ members, (ofTable table).membersOf? group = some members) ↔
      ∃ entry ∈ table.types, group ∈ entry.2.aliases := by
  constructor
  · rintro ⟨members, hmembers⟩
    obtain ⟨type, htype⟩ :=
      List.exists_mem_of_ne_nil _ ((membersOf?_ofTable_eq_some h).mp hmembers).1
    obtain ⟨entry, hentry, -, hgroup⟩ := GrammarTable.mem_membersOf_iff.mp htype
    exact ⟨entry, hentry, hgroup⟩
  · rintro ⟨entry, hentry, hgroup⟩
    obtain ⟨members, hmembers, -⟩ := (mem_membersOf?_iff h).mpr ⟨entry, hentry, rfl, hgroup⟩
    exact ⟨members, hmembers⟩

theorem sublist_of_membersOf? {members : List String}
    (hmembers : (ofTable table).membersOf? group = some members) :
    members.Nodup ∧ members.Sublist (table.types.map (·.1)) := by
  have hsub := table.membersOf_sublist group
  rw [((membersOf?_ofTable_eq_some h).mp hmembers).2]
  exact ⟨h.sublist hsub, hsub⟩

end

/-! ### Names -/

theorem isType_ofTable_iff :
    (ofTable table).isType name = true ↔ name ∈ table.types.map (·.1) := by
  rw [isType, fieldsOf?, ← mem_keys_iff, ofTable, List.map_map]
  rfl

/-- The groups that are no types, in their order. -/
def otherGroups (table : GrammarTable) : List String :=
  ((ofTable table).groups.map (·.1)).filter fun name => !(ofTable table).isType name

theorem mem_otherGroups_iff :
    name ∈ otherGroups table ↔ name ∈ table.mentions ∧ name ∉ table.types.map (·.1) := by
  rw [otherGroups, List.mem_filter, mem_keys_groups_iff, ← isType_ofTable_iff]
  simp

theorem byFirstMention_otherGroups (table : GrammarTable) :
    ByFirstMention table.mentions (otherGroups table) := (byFirstMention_groups table).filter _

theorem names_ofTable (table : GrammarTable) :
    (ofTable table).names = table.types.map (·.1) ++ otherGroups table := by
  rw [names, otherGroups]
  congr 1
  rw [ofTable, List.map_map]
  rfl

theorem nodup_names_ofTable (h : (table.types.map (·.1)).Nodup) :
    (ofTable table).names.Nodup := by
  rw [names_ofTable]
  refine List.nodup_append.mpr ⟨h, (byFirstMention_otherGroups table).nodup, ?_⟩
  rintro name hname other hother rfl
  exact (mem_otherGroups_iff.mp hother).2 hname

/-- The groups of a grammar invert the memberships of its table: a type is a member of a group if
and only if it names the group, however often it does; no group has a member twice, and members
stand in the order of the table; the groups are those that are named, in the order of first
mention. The names of a grammar are its types in the order of the table and then the groups that
are no types in the order of first mention, and no name comes twice. -/
theorem ofTable_inverts (h : (table.types.map (·.1)).Nodup) :
    (∀ group type, (∃ members, (ofTable table).membersOf? group = some members ∧ type ∈ members) ↔
      ∃ entry ∈ table.types, entry.1 = type ∧ group ∈ entry.2.aliases) ∧
    (∀ group members, (ofTable table).membersOf? group = some members →
      members.Nodup ∧ members.Sublist (table.types.map (·.1))) ∧
    (∀ group, (∃ members, (ofTable table).membersOf? group = some members) ↔
      ∃ entry ∈ table.types, group ∈ entry.2.aliases) ∧
    ((∀ group, group ∈ (ofTable table).groups.map (·.1) ↔ group ∈ table.mentions) ∧
      ByFirstMention table.mentions ((ofTable table).groups.map (·.1))) ∧
    (∃ others, (ofTable table).names = table.types.map (·.1) ++ others ∧
      (∀ name, name ∈ others ↔ name ∈ table.mentions ∧ name ∉ table.types.map (·.1)) ∧
      ByFirstMention table.mentions others) ∧
    (ofTable table).names.Nodup := by
  refine ⟨fun _ _ => mem_membersOf?_iff h, fun _ _ => sublist_of_membersOf? h,
    fun _ => exists_membersOf?_iff h, ⟨fun _ => mem_keys_groups_iff, byFirstMention_groups table⟩,
    ⟨otherGroups table, names_ofTable table, fun _ => mem_otherGroups_iff, ?_⟩,
    nodup_names_ofTable h⟩
  exact byFirstMention_otherGroups table

/-- Two types that name groups more than once, among them the name of the second. -/
def crossed : GrammarTable where
  name := "crossed"
  types := [("A", { aliases := ["G", "B", "G"] }), ("B", { aliases := ["H", "B", "G"] })]

theorem ofTable_inverts_crossed : (crossed.types.map (·.1)).Nodup ∧
    (ofTable crossed).membersOf? "B" = some ["A", "B"] ∧
    (ofTable crossed).names = ["A", "B", "G", "H"] ∧
    (∃ entry ∈ crossed.types, entry.1 = "B" ∧ "B" ∈ entry.2.aliases) ∧
    (ofTable crossed).names.Nodup := by
  have hnodup : (crossed.types.map (·.1)).Nodup := by decide
  have hmembers : (ofTable crossed).membersOf? "B" = some ["A", "B"] := by decide
  obtain ⟨hiff, -, -, -, -, hnames⟩ := ofTable_inverts hnodup
  exact ⟨hnodup, hmembers, by decide, (hiff "B" "B").mp ⟨_, hmembers, by decide⟩, hnames⟩

end Grammar

end TypedTree
