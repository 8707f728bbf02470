/-
Tables and the groups of their grammars.

A table says for each type which groups it belongs to; a grammar says for each group which
types do. Main statements:

* `GrammarTable.Distinct` — no type has two entries in a table, no field two in a type;
* `GrammarTable.distinct_of_read` — every table that is read is of that kind;
* `GrammarTable.membersOf` — the types that name a group, in the order of the table;
* `Grammar.membersOf?_ofTable` — those are the members of the group in the grammar;
* `GrammarTable.Member` — a type belongs to a group.
-/
import TypedTree.Grammar.Table
import TypedTree.Proofs.Entries

namespace TypedTree

/-! ### What reading keeps true -/

namespace GrammarTable

open Json (Form Lexeme ReadError)

section

variable {α : Type} {P : α → Prop}

theorem of_readItems {step : α → String → Form → Except TableError α}
    {closed : Except ReadError Unit}
    (hstep : ∀ {acc acc' key form}, P acc → step acc key form = .ok acc' → P acc') :
    ∀ {keys : List String} {items : List Form} {count : Nat} {acc : α} {result : α × Nat}, P acc →
      readItems step closed keys items count acc = .ok result → P result.1
  | [], [], _, _, _, hacc, h => by
    obtain ⟨⟨⟩, -, h⟩ := bind_eq_ok_iff.mp h
    cases h
    exact hacc
  | [], _ :: _, _, _, _, _, h => by cases h
  | _ :: _, [], _, _, _, hacc, h => by
    obtain ⟨⟨⟩, -, h⟩ := bind_eq_ok_iff.mp h
    cases h
    exact hacc
  | _ :: _, _ :: _, _, _, _, hacc, h => by
    obtain ⟨acc', hacc', h⟩ := bind_eq_ok_iff.mp h
    exact of_readItems hstep (hstep hacc hacc') h

theorem of_readEntries {keys : List String} {step : α → String → Form → Except TableError α}
    (hstep : ∀ {acc acc' key form}, P acc → step acc key form = .ok acc' → P acc') :
    ∀ {entries : List (Lexeme String × Form)} {seen : List String} {acc : α}
      {result : α × List String}, P acc →
      readEntries keys step entries seen acc = .ok result → P result.1
  | [], _, _, _, hacc, h => by
    cases h
    exact hacc
  | (_, _) :: _, _, _, _, hacc, h => by
    obtain ⟨name, -, h⟩ := bind_eq_ok_iff.mp h
    split at h
    · split at h
      · cases h
      · obtain ⟨acc', hacc', h⟩ := bind_eq_ok_iff.mp h
        exact of_readEntries hstep (hstep hacc hacc') h
    · obtain ⟨⟨⟩, -, h⟩ := bind_eq_ok_iff.mp h
      exact of_readEntries hstep hacc h

/-- What the parts of a structure keep true is true of the structure. -/
theorem of_readStruct {expected : String} {keys : List String} {least : Nat} {start : α}
    {step : Nat → α → String → Form → Except TableError α} {depth : Nat} {form : Form}
    {result : α} (hstart : P start)
    (hstep : ∀ {depth acc acc' key form}, P acc → step depth acc key form = .ok acc' → P acc')
    (h : readStruct expected keys least start step depth form = .ok result) : P result := by
  unfold readStruct at h
  split at h
  · cases h
  · cases h
  · obtain ⟨⟨acc, count⟩, hitems, h⟩ := bind_eq_ok_iff.mp h
    have hacc : P acc := of_readItems hstep hstart hitems
    dsimp only at h
    split at h
    · cases h
    · cases h
      exact hacc
  · obtain ⟨⟨acc, seen⟩, hentries, h⟩ := bind_eq_ok_iff.mp h
    obtain ⟨⟨⟩, -, h⟩ := bind_eq_ok_iff.mp h
    have hacc : P acc := of_readEntries hstep hstart hentries
    split at h
    · cases h
    · cases h
      exact hacc
  · cases h

/-- A map has every key once, and each value was read. -/
theorem of_readMap {read : Nat → Form → Except TableError α} {depth : Nat} {form : Form}
    {entries : List (String × α)}
    (hread : ∀ {depth form value}, read depth form = .ok value → P value)
    (h : readMap read depth form = .ok entries) :
    (entries.map (·.1)).Nodup ∧ ∀ entry ∈ entries, P entry.2 := by
  unfold readMap at h
  split at h
  · cases h
  · obtain ⟨values, hvalues, h⟩ := bind_eq_ok_iff.mp h
    obtain ⟨⟨⟩, -, h⟩ := bind_eq_ok_iff.mp h
    cases h
    refine ⟨Entries.nodup_keys_ofList values, fun entry hentry => ?_⟩
    obtain ⟨⟨key, value⟩, -, hvalue⟩ := exists_of_forall₂_of_mem_right (mapM_eq_ok_iff.mp hvalues)
      (Entries.mem_of_mem_ofList hentry)
    obtain ⟨name, -, hvalue⟩ := bind_eq_ok_iff.mp hvalue
    obtain ⟨read', hread', hvalue⟩ := bind_eq_ok_iff.mp hvalue
    cases hvalue
    exact hread hread'
  · cases h

end

/-! ### Distinct entries -/

/-- No type has two entries in a table, and no field two in a type. -/
structure Distinct (table : GrammarTable) : Prop where
  types : (table.types.map (·.1)).Nodup
  fields : ∀ entry ∈ table.types, (entry.2.fields.map (·.name)).Nodup

theorem nodup_fields_of_readType {depth : Nat} {form : Form} {type : TableType}
    (h : readType depth form = .ok type) : (type.fields.map (·.name)).Nodup := by
  have hstart : (({} : TableType).fields.map (·.name)).Nodup := List.nodup_nil
  refine of_readStruct (P := fun type : TableType => (type.fields.map (·.name)).Nodup)
    hstart ?_ h
  intro depth type type' key form htype hstep
  split at hstep
  · obtain ⟨aliases, -, hstep⟩ := bind_eq_ok_iff.mp hstep
    cases hstep
    exact htype
  · obtain ⟨fields, hfields, hstep⟩ := bind_eq_ok_iff.mp hstep
    cases hstep
    -- Fields have the names of the keys they stand under.
    have hnodup := (of_readMap (P := fun _ => True) (fun _ => trivial) hfields).1
    simpa [List.map_map, Function.comp_def] using hnodup

/-- Every table that is read has distinct entries. -/
theorem distinct_of_read {text : String} {table : GrammarTable} (h : read text = .ok table) :
    table.Distinct := by
  obtain ⟨table', htable, h⟩ := bind_eq_ok_iff.mp h
  obtain ⟨⟨⟩, -, h⟩ := bind_eq_ok_iff.mp h
  cases h
  have hstart : Distinct { name := "", types := [] } := ⟨List.nodup_nil, by simp⟩
  refine of_readStruct (P := Distinct) hstart ?_ htable
  intro depth table table' key form hdistinct hstep
  split at hstep
  · obtain ⟨name, -, hstep⟩ := bind_eq_ok_iff.mp hstep
    cases hstep
    exact ⟨hdistinct.types, hdistinct.fields⟩
  · obtain ⟨types, htypes, hstep⟩ := bind_eq_ok_iff.mp hstep
    cases hstep
    obtain ⟨hkeys, hfields⟩ := of_readMap nodup_fields_of_readType htypes
    exact ⟨hkeys, hfields⟩

/-! ### Members of groups -/

/-- The types that name a group, in the order of the table. -/
def membersOf (table : GrammarTable) (group : String) : List String :=
  (table.types.filter fun entry => group ∈ entry.2.aliases).map (·.1)

/-- A type belongs to a group. -/
def Member (table : GrammarTable) (group member : String) : Prop := member ∈ table.membersOf group

end GrammarTable

namespace Grammar

/-- The members with a type among them, at the end if it is new. -/
def withMember (members : List String) (type : String) : List String :=
  if type ∈ members then members else members ++ [type]

theorem lookup_addMember (type : String) (groups : List (String × List String))
    (group other : String) :
    (addMember type groups group).lookup other =
      if other = group then some (withMember ((groups.lookup group).getD []) type)
      else groups.lookup other := Entries.lookup_set _ _ _ _

/-- A type joins the groups that it names, however often it names them. -/
theorem lookup_addType (groups : List (String × List String)) (entry : String × TableType)
    (group : String) :
    (addType groups entry).lookup group =
      if group ∈ entry.2.aliases then some (withMember ((groups.lookup group).getD []) entry.1)
      else groups.lookup group := by
  unfold addType
  generalize entry.2.aliases = aliases
  induction aliases generalizing groups with
  | nil => simp
  | cons first aliases ih =>
    have htwice : ∀ members : List String,
        withMember (withMember members entry.1) entry.1 = withMember members entry.1 := by
      intro members
      have hmem : entry.1 ∈ withMember members entry.1 := by
        unfold withMember
        split <;> simp_all
      exact if_pos hmem
    rw [List.foldl_cons, ih, lookup_addMember]
    by_cases hfirst : group = first
    · subst hfirst
      simp [htwice]
    · simp [hfirst]

/-- The members of a group are the types that name it, in the order of the table. -/
theorem membersOf?_ofTable {table : GrammarTable} (h : (table.types.map (·.1)).Nodup)
    (group : String) :
    (ofTable table).membersOf? group =
      if table.membersOf group = [] then none else some (table.membersOf group) := by
  -- Types join one after another; none of those to come has joined already.
  have hfold : ∀ (types : List (String × TableType)) (groups : List (String × List String)),
      (types.map (·.1)).Nodup →
      (∀ entry ∈ types, entry.1 ∉ (groups.lookup group).getD []) →
      (types.foldl addType groups).lookup group =
        if GrammarTable.membersOf { table with types } group = [] then groups.lookup group
        else some ((groups.lookup group).getD [] ++
          GrammarTable.membersOf { table with types } group) := by
    intro types
    induction types with
    | nil => simp [GrammarTable.membersOf]
    | cons entry types ih =>
      intro groups hnodup hnew
      obtain ⟨hentry, hrest⟩ := List.nodup_cons.mp hnodup
      obtain ⟨hnew, hnews⟩ := List.forall_mem_cons.mp hnew
      have hjoin := lookup_addType groups entry group
      by_cases hgroup : group ∈ entry.2.aliases
      · rw [if_pos hgroup, withMember, if_neg hnew] at hjoin
        have hnews' : ∀ other ∈ types, other.1 ∉ ((addType groups entry).lookup group).getD [] := by
          intro other hother hmem
          rw [hjoin] at hmem
          rcases List.mem_append.mp hmem with hmem | hmem
          · exact hnews other hother hmem
          · exact hentry (List.mem_map.mpr ⟨other, hother, List.mem_singleton.mp hmem⟩)
        have hmembers : GrammarTable.membersOf { table with types := entry :: types } group =
            entry.1 :: GrammarTable.membersOf { table with types } group := by
          simp [GrammarTable.membersOf, hgroup]
        rw [List.foldl_cons, ih _ hrest hnews', hjoin, hmembers]
        by_cases hnil : GrammarTable.membersOf { table with types } group = [] <;> simp [hnil]
      · rw [if_neg hgroup] at hjoin
        have hmembers : GrammarTable.membersOf { table with types := entry :: types } group =
            GrammarTable.membersOf { table with types } group := by
          simp [GrammarTable.membersOf, hgroup]
        rw [List.foldl_cons, ih _ hrest (by rwa [hjoin]), hjoin, hmembers]
  have hall := hfold table.types [] h (by simp)
  rwa [List.lookup_nil, Option.getD_none, List.nil_append] at hall

end Grammar

end TypedTree
