/-
What structural types mean.

A structural type is given out under a name put together from those of its parts, and calls with
other arguments may get the same type: the union of `A`, `B` and `C`, and the union of `C` with
that of `A` and `B`, have one name and one body. Main statements:

* `Builder.Formed` — the ways in which a type gets its name;
* `Builder.Structured.whole_or_joins` — a name is whole or that of a structural union;
* `Builder.Structured.isInstance_iff_hasPiece` — a value is of a type if and only if it is of one
  whose name is a piece of the type's name;
* `Builder.isInstance_of_calls` — in the end, the types that calls have given hold the values that
  their arguments say.

Design notes: what brackets hold can be read off a name, so the body of a type of lists is the one
that the call asks for. The body of a union cannot be told from its name, but which values it holds
can: the pieces of the name are names of types that are no structural unions.
-/
import TypedTree.Proofs.Schema.Calls
import TypedTree.Proofs.Schema.Cycles
import TypedTree.Proofs.Schema.Pieces
import TypedTree.Schema.Instance

namespace TypedTree

theorem FreeName.whole {name : String} (h : FreeName name) : Whole name.toList :=
  whole_of_not_mem ⟨h.noOpening, h.noClosing, h.noBar⟩

theorem Primitive.whole_name (kind : Primitive) : Whole kind.name.toList :=
  whole_of_not_mem (by cases kind <;> decide)

namespace Builder

variable {b : Builder} {reg : Registry} {id : TypeId} {ids : List TypeId} {v : Value}

/-! ### Names -/

/-- A type is the structural union of several types that came before it. -/
structure Joins (b : Builder) (id : TypeId) (ids : List TypeId) : Prop where
  body : b.body? id = some (.union ids)
  text : b.name id = " | ".intercalate (ids.map b.name)
  several : 2 ≤ ids.length
  before : ∀ part ∈ ids, part.index < id.index

theorem Joins.exists_cons_cons (h : b.Joins id ids) : ∃ m n rest, ids = m :: n :: rest := by
  have hlength := h.several
  rcases ids with _ | ⟨m, _ | ⟨n, rest⟩⟩
  · simp at hlength
  · simp at hlength
  · exact ⟨m, n, rest, rfl⟩

theorem Joins.ne_nil (h : b.Joins id ids) : ids ≠ [] := by
  obtain ⟨m, n, rest, rfl⟩ := h.exists_cons_cons
  exact List.cons_ne_nil _ _

/-- How a type got its name: by hand, or by one of the forms of structural types. -/
inductive Formed (b : Builder) (id : TypeId) : Prop
  | free (name : FreeName (b.name id))
  | primitive {kind : Primitive} (name : b.name id = kind.name)
  | nameSet (name : b.name id = "StringSet")
  | array {item : TypeId} (body : b.body? id = some (.array item)) (before : item.index < id.index)
      (name : b.name id = (TypeLabel.array (b.name item)).text)
  | nullable {inner : TypeId} (body : b.body? id = some (.nullable inner))
      (before : inner.index < id.index)
      (name : b.name id = (TypeLabel.nullable (b.name inner)).text)
  | nothing (body : b.body? id = some (.union [])) (name : b.name id = "")
  | joins {ids : List TypeId} (joins : b.Joins id ids)

theorem Structured.formed (hb : b.Structured) (hid : id.index < b.size) : b.Formed id := by
  by_cases hfree : FreeName (b.name id)
  · exact .free hfree
  obtain ⟨shape, hbody, hspells, hparts⟩ := hb.structural hid hfree
  have htext := hspells.text
  cases shape with
  | primitive kind => exact .primitive (Option.some.inj htext).symm
  | nameSet => exact .nameSet (Option.some.inj htext).symm
  | array item =>
    exact .array hbody (hparts item (by simp [Shape.contents])) (Option.some.inj htext).symm
  | nullable inner =>
    exact .nullable hbody (hparts inner (by simp [Shape.contents])) (Option.some.inj htext).symm
  | union ids =>
    rcases ids with _ | ⟨m, _ | ⟨n, rest⟩⟩
    · exact .nothing hbody (Option.some.inj htext).symm
    · exact absurd rfl (hspells.several rfl)
    · exact .joins ⟨hbody, (Option.some.inj htext).symm, by simp, hparts⟩
  | product | inspect => cases htext

section

variable (hb : b.Structured)
include hb

theorem Structured.whole_or_joins_of (hid : id.index < b.size)
    (hbefore : ∀ part : TypeId, part.index < id.index → Balanced (b.name part).toList) :
    Whole (b.name id).toList ∨ ∃ ids, b.Joins id ids := by
  cases hb.formed hid with
  | free hfree => exact .inl hfree.whole
  | @primitive kind hname => exact .inl (hname ▸ kind.whole_name)
  | nameSet hname => exact .inl (hname ▸ whole_of_not_mem (by decide))
  | array _ hitem hname => exact .inl (hname ▸ (hbefore _ hitem).whole_array)
  | nullable _ hinner hname => exact .inl (hname ▸ (hbefore _ hinner).whole_nullable)
  | nothing _ hname => exact .inl (hname ▸ whole_nil)
  | joins hjoins => exact .inr ⟨_, hjoins⟩

/-- The brackets of every name match. -/
theorem Structured.balanced : ∀ {id : TypeId}, id.index < b.size → Balanced (b.name id).toList := by
  intro id hid
  -- The names of the parts come first.
  induction hindex : id.index using Nat.strong_induction_on generalizing id with
  | _ index ih =>
    subst hindex
    have hbefore : ∀ part : TypeId, part.index < id.index → Balanced (b.name part).toList :=
      fun part hpart => ih part.index hpart (Nat.lt_trans hpart hid) rfl
    rcases hb.whole_or_joins_of hid hbefore with hwhole | ⟨ids, hjoins⟩
    · exact hwhole.balanced
    · rw [hjoins.text]
      refine balanced_intercalate fun name hname => ?_
      obtain ⟨part, hpart, rfl⟩ := List.mem_map.mp hname
      exact hbefore part (hjoins.before part hpart)

/-- A name is whole, or that of a structural union. -/
theorem Structured.whole_or_joins (hid : id.index < b.size) :
    Whole (b.name id).toList ∨ ∃ ids, b.Joins id ids :=
  hb.whole_or_joins_of hid fun _ hpart => hb.balanced (Nat.lt_trans hpart hid)

theorem Structured.balanced_names (hids : ∀ m ∈ ids, m.index < b.size) :
    ∀ name ∈ ids.map b.name, Balanced name.toList := by
  intro name hname
  obtain ⟨m, hm, rfl⟩ := List.mem_map.mp hname
  exact hb.balanced (hids m hm)

theorem Structured.not_whole_of_joins (hid : id.index < b.size) (h : b.Joins id ids) :
    ¬ Whole (b.name id).toList := by
  have hbalanced := hb.balanced_names fun m hm => Nat.lt_trans (h.before m hm) hid
  rw [h.text]
  obtain ⟨m, n, rest, rfl⟩ := h.exists_cons_cons
  exact not_whole_intercalate hbalanced

/-- A whole name with brackets tells what stands in them. -/
theorem Structured.exists_of_opening (hid : id.index < b.size)
    (hwhole : Whole (b.name id).toList) (hopening : '<' ∈ (b.name id).toList) :
    ∃ part, part.index < b.size ∧
      ((b.body? id = some (.array part) ∧ b.name id = (TypeLabel.array (b.name part)).text) ∨
        (b.body? id = some (.nullable part) ∧
          b.name id = (TypeLabel.nullable (b.name part)).text)) := by
  cases hb.formed hid with
  | array hbody hitem hname => exact ⟨_, Nat.lt_trans hitem hid, .inl ⟨hbody, hname⟩⟩
  | nullable hbody hinner hname => exact ⟨_, Nat.lt_trans hinner hid, .inr ⟨hbody, hname⟩⟩
  | joins hjoins => exact absurd hwhole (hb.not_whole_of_joins hid hjoins)
  | free hfree => exact absurd hopening hfree.noOpening
  | @primitive kind hname => exact absurd (hname ▸ hopening) (not_mem_name_toList kind).1
  | nameSet hname => exact absurd (hname ▸ hopening) (by decide)
  | nothing _ hname => exact absurd (hname ▸ hopening) (by decide)

theorem Structured.body?_of_array {item : TypeId} (hid : id.index < b.size)
    (hitem : item.index < b.size) (hname : b.name id = (TypeLabel.array (b.name item)).text) :
    b.body? id = some (.array item) := by
  obtain ⟨part, hpart, ⟨hbody, htext⟩ | ⟨-, htext⟩⟩ := hb.exists_of_opening hid
    (hname ▸ (hb.balanced hitem).whole_array) (hname ▸ TypeLabel.mem_opening_of_array _)
  · have hsame : b.name part = b.name item := TypeLabel.bracketed_inj (htext.symm.trans hname)
    rw [hbody, hb.nodup hpart hitem hsame]
  · exact absurd (hname.symm.trans htext) (TypeLabel.array_text_ne_nullable _ _)

theorem Structured.body?_of_nullable {inner : TypeId} (hid : id.index < b.size)
    (hinner : inner.index < b.size)
    (hname : b.name id = (TypeLabel.nullable (b.name inner)).text) :
    b.body? id = some (.nullable inner) := by
  obtain ⟨part, hpart, ⟨-, htext⟩ | ⟨hbody, htext⟩⟩ := hb.exists_of_opening hid
    (hname ▸ (hb.balanced hinner).whole_nullable) (hname ▸ TypeLabel.mem_opening_of_nullable _)
  · exact absurd (htext.symm.trans hname) (TypeLabel.array_text_ne_nullable _ _)
  · have hsame : b.name part = b.name inner := TypeLabel.bracketed_inj (htext.symm.trans hname)
    rw [hbody, hb.nodup hpart hinner hsame]

/-- In a schema that can be frozen every type has a name. -/
theorem Structured.name_ne_empty (hplans : b.Plans) (hid : id.index < b.size) : b.name id ≠ "" := by
  intro hempty
  cases hb.formed hid with
  | free hfree => exact hfree.nonempty hempty
  | @primitive kind hname => exact absurd (hname.symm.trans hempty) (by cases kind <;> decide)
  | nameSet hname => exact absurd (hname.symm.trans hempty) (by decide)
  | @array item _ _ hname =>
    have hopening := TypeLabel.mem_opening_of_array (b.name item)
    rw [← hname, hempty] at hopening
    exact absurd hopening (by decide)
  | @nullable inner _ _ hname =>
    have hopening := TypeLabel.mem_opening_of_nullable (b.name inner)
    rw [← hname, hempty] at hopening
    exact absurd hopening (by decide)
  | nothing hbody _ => exact hplans.ne_nil_of_union hbody rfl
  | joins hjoins =>
    exact hb.not_whole_of_joins hid hjoins (hempty ▸ whole_nil)

/-! ### Values -/

/-- A value is of a type whose name is a piece of the given name. -/
def HasPiece (b : Builder) (reg : Registry) (name : String) (v : Value) : Prop :=
  ∃ m : TypeId, m.index < b.size ∧ padded (b.name m).toList ∈ pieces 0 (padded name.toList) ∧
    reg.isInstance m v = true

theorem Structured.hasPiece_intercalate (hids : ∀ m ∈ ids, m.index < b.size) (hne : ids ≠ []) :
    b.HasPiece reg (" | ".intercalate (ids.map b.name)) v ↔
      ∃ m ∈ ids, b.HasPiece reg (b.name m) v := by
  rw [HasPiece, pieces_intercalate (by simpa using hne) (hb.balanced_names hids)]
  simp only [List.mem_flatMap, List.mem_map, HasPiece]
  constructor
  · rintro ⟨m, hm, ⟨_, ⟨part, hpart, rfl⟩, hpiece⟩, hv⟩
    exact ⟨part, hpart, m, hm, hpiece, hv⟩
  · rintro ⟨part, hpart, m, hm, hpiece, hv⟩
    exact ⟨m, hm, ⟨_, ⟨part, hpart, rfl⟩, hpiece⟩, hv⟩

variable (hfreeze : b.freeze = .ok reg)
include hfreeze

/-- A value is of a type if and only if it is of one whose name is a piece of the type's name. -/
theorem Structured.isInstance_iff_hasPiece (hid : id.index < b.size) :
    reg.isInstance id v = true ↔ b.HasPiece reg (b.name id) v := by
  -- The alternatives of a structural union come before it.
  induction hindex : id.index using Nat.strong_induction_on generalizing id with
  | _ index ih =>
    subst hindex
    rcases hb.whole_or_joins hid with hwhole | ⟨ids, hjoins⟩
    · rw [HasPiece, hwhole.padded.pieces_eq]
      constructor
      · exact fun hv => ⟨id, hid, List.mem_singleton_self _, hv⟩
      · rintro ⟨m, hm, hpiece, hv⟩
        have hname := padded_inj (List.mem_singleton.mp hpiece)
        rwa [hb.nodup hm hid (String.toList_injective hname)] at hv
    · have hinside : ∀ m ∈ ids, m.index < b.size :=
        fun m hm => Nat.lt_trans (hjoins.before m hm) hid
      have hshape : reg.shape id = .union ids := by
        rw [shape_of_freeze hfreeze, hjoins.body, Option.getD_some]
      rw [hjoins.text, hb.hasPiece_intercalate hinside hjoins.ne_nil, Registry.isInstance_eq,
        hshape]
      dsimp only
      rw [List.any_eq_true]
      refine exists_congr fun m => and_congr_right fun hm => ?_
      exact ih m.index (hjoins.before m hm) (hinside m hm) rfl

/-! ### Types of calls -/

theorem Structured.isInstance_of_arrayOf {item : TypeId}
    (hmade : (Operation.arrayOf item).Made b id) : reg.isInstance id v = true ↔
      ∃ items, v = .list items ∧ ∀ w ∈ items, reg.isInstance item w = true := by
  obtain ⟨hitem, hid, hname⟩ := hmade
  have hshape : reg.shape id = .array item := by
    rw [shape_of_freeze hfreeze, hb.body?_of_array hid hitem hname, Option.getD_some]
  rw [Registry.isInstance_eq, hshape]
  cases v <;> simp

theorem Structured.isInstance_of_nullable {inner : TypeId}
    (hmade : (Operation.nullable inner).Made b id) :
    reg.isInstance id v = true ↔ v = .null ∨ reg.isInstance inner v = true := by
  have hnull : v.isNull = true ↔ v = .null := by cases v <;> simp [Value.isNull]
  have hshape : ∀ {shape : Shape}, b.body? id = some shape → reg.shape id = shape := fun hbody => by
    rw [shape_of_freeze hfreeze, hbody, Option.getD_some]
  rcases hmade with ⟨rfl, ⟨i, hbody⟩ | hbody⟩ | ⟨hinner, hid, hname⟩
  · rw [Registry.isInstance_eq, hshape hbody]
    simp [hnull]
  · rw [Registry.isInstance_eq, hshape hbody]
    cases v <;> simp [Primitive.holds]
  · rw [Registry.isInstance_eq, hshape (hb.body?_of_nullable hid hinner hname)]
    simp [hnull]

theorem Structured.isInstance_of_unionOf {members : List TypeId}
    (hmade : (Operation.unionOf members).Made b id) :
    reg.isInstance id v = true ↔ ∃ m ∈ members, reg.isInstance m v = true := by
  have hmem := (distinct_spec members).2
  rcases hmade with hsingle | ⟨hmembers, hlength, hid, hname⟩
  · simp only [← hmem, hsingle, List.mem_singleton, exists_eq_left]
  · have hne : distinct members ≠ [] := by
      intro hnil
      rw [hnil] at hname
      exact hb.name_ne_empty (plans_of_freeze hfreeze) hid hname
    rw [hb.isInstance_iff_hasPiece hfreeze hid, hname, hb.hasPiece_intercalate hmembers hne]
    simp only [← hmem]
    refine exists_congr fun m => and_congr_right fun hm => ?_
    exact (hb.isInstance_iff_hasPiece hfreeze (hmembers m hm)).symm

end

/-- The structural types that were given out on the way to a schema hold what they were asked for:
lists of items, `null` beside what is inside, and whatever one of the members holds. It does not
matter whether a type was made by the call at hand, or by an earlier one with other arguments. -/
theorem isInstance_of_calls {log : List (Operation × TypeId)} (hcalls : Calls {} log b)
    (hfreeze : b.freeze = .ok reg) (v : Value) :
    (∀ item id, (.arrayOf item, id) ∈ log → (reg.isInstance id v = true ↔
      ∃ items, v = .list items ∧ ∀ w ∈ items, reg.isInstance item w = true)) ∧
    (∀ inner id, (.nullable inner, id) ∈ log → (reg.isInstance id v = true ↔
      v = .null ∨ reg.isInstance inner v = true)) ∧
    (∀ members id, (.unionOf members, id) ∈ log → (reg.isInstance id v = true ↔
      ∃ m ∈ members, reg.isInstance m v = true)) := by
  obtain ⟨⟨hb, -⟩, hmade⟩ := hcalls.made structured_empty
  exact ⟨fun item id hmem => hb.isInstance_of_arrayOf hfreeze (hmade _ _ hmem),
    fun inner id hmem => hb.isInstance_of_nullable hfreeze (hmade _ _ hmem),
    fun members id hmem => hb.isInstance_of_unionOf hfreeze (hmade _ _ hmem)⟩

/-! ### One union, made twice -/

/-- A type of nodes without fields. -/
def bareNode (name : String) : Shape := .product { source := { tag := name }, fields := [] }

/-- The union of `A`, `B` and `C`, with and without that of `A` and `B` in it, and lists of it to
which `null` is added twice. -/
def regrouped : List (Operation × TypeId) := [
  (.named "A" (bareNode "A"), ⟨0⟩), (.named "B" (bareNode "B"), ⟨1⟩),
  (.named "C" (bareNode "C"), ⟨2⟩), (.unionOf [⟨0⟩, ⟨1⟩], ⟨3⟩), (.unionOf [⟨3⟩, ⟨2⟩], ⟨4⟩),
  (.unionOf [⟨0⟩, ⟨1⟩, ⟨2⟩], ⟨4⟩), (.arrayOf ⟨4⟩, ⟨5⟩), (.nullable ⟨5⟩, ⟨6⟩), (.nullable ⟨6⟩, ⟨6⟩)]

theorem freeName_of_mem {name : String} (h : name ∈ ["A", "B", "C"]) : FreeName name := by
  simp only [List.mem_cons, List.not_mem_nil, or_false] at h
  rcases h with rfl | rfl | rfl <;>
    exact ⟨by decide, by decide, by decide, by decide, fun kind => by cases kind <;> decide,
      by decide⟩

/-- The types that the calls declare, up to one of them. -/
def regroupedUpTo (count : Nat) : Builder where
  declarations := List.take count [
    { name := "A", body := some (bareNode "A") }, { name := "B", body := some (bareNode "B") },
    { name := "C", body := some (bareNode "C") },
    { name := "A | B", body := some (.union [⟨0⟩, ⟨1⟩]), structural := true },
    { name := "A | B | C", body := some (.union [⟨3⟩, ⟨2⟩]), structural := true },
    { name := "Array<A | B | C>", body := some (.array ⟨4⟩), structural := true },
    { name := "Nullable<Array<A | B | C>>", body := some (.nullable ⟨5⟩), structural := true }]

theorem calls_regrouped : Calls {} regrouped (regroupedUpTo 7) := by
  have hnode : ∀ name, (bareNode name).IsNamed := fun name => .inl ⟨_, rfl⟩
  have hcall : ∀ {op : Operation} {id : TypeId} {log : List (Operation × TypeId)} (count next : Nat),
      op.Allowed (regroupedUpTo count) → op.run (regroupedUpTo count) = (id, regroupedUpTo next) →
      Calls (regroupedUpTo next) log (regroupedUpTo 7) →
      Calls (regroupedUpTo count) ((op, id) :: log) (regroupedUpTo 7) := fun _ _ => .cons
  have hunion : ∀ {members : List TypeId} {count : Nat},
      (∀ m ∈ members, m.index < (regroupedUpTo count).size) →
      (Operation.unionOf members).Allowed (regroupedUpTo count) := id
  have hother : Calls (regroupedUpTo 3) (regrouped.drop 3) (regroupedUpTo 7) :=
    hcall 3 4 (hunion (by decide)) rfl <| hcall 4 5 (hunion (by decide)) rfl <|
    hcall 5 5 (hunion (by decide)) rfl <| hcall 5 6 (Nat.lt_succ_self 4) rfl <|
    hcall 6 7 (Nat.lt_succ_self 5) rfl <| hcall 7 7 (Nat.lt_succ_self 6) rfl <| .nil _
  exact hcall 0 1 ⟨freeName_of_mem (by simp), hnode "A"⟩ rfl <|
    hcall 1 2 ⟨freeName_of_mem (by simp), hnode "B"⟩ rfl <|
    hcall 2 3 ⟨freeName_of_mem (by simp), hnode "C"⟩ rfl hother

/-- The type of the two calls is the union of all three types for either, and `null` is taken along
with lists of it. -/
theorem isInstance_of_calls_regrouped : ∃ b reg, Calls {} regrouped b ∧ b.freeze = .ok reg ∧
    ∀ v, (reg.isInstance ⟨4⟩ v = true ↔ ∃ m ∈ [⟨3⟩, ⟨2⟩], reg.isInstance m v = true) ∧
      (reg.isInstance ⟨4⟩ v = true ↔ ∃ m ∈ [⟨0⟩, ⟨1⟩, ⟨2⟩], reg.isInstance m v = true) ∧
      (reg.isInstance ⟨5⟩ v = true ↔
        ∃ items, v = .list items ∧ ∀ w ∈ items, reg.isInstance ⟨4⟩ w = true) ∧
      (reg.isInstance ⟨6⟩ v = true ↔ v = .null ∨ reg.isInstance ⟨5⟩ v = true) ∧
      (reg.isInstance ⟨6⟩ v = true ↔ v = .null ∨ reg.isInstance ⟨6⟩ v = true) := by
  obtain ⟨reg, hreg, -⟩ := exists_freeze_of_check (b := regroupedUpTo 7) (by decide +kernel)
  refine ⟨_, reg, calls_regrouped, hreg, fun v => ?_⟩
  obtain ⟨harray, hnullable, hunion⟩ := isInstance_of_calls calls_regrouped hreg v
  exact ⟨hunion _ _ (by simp [regrouped]), hunion _ _ (by simp [regrouped]),
    harray _ _ (by simp [regrouped]), hnullable _ _ (by simp [regrouped]),
    hnullable _ _ (by simp [regrouped])⟩

end Builder

end TypedTree
