/-
Sources and values without metadata.

Main statements:

* `Json.bare` — a source without the metadata of its tagged records, but for the parts that are
  carried along as they are;
* `Json.bare_obj_metadata` — the metadata of a tagged record does not count;
* `Json.Record.get?_eq_of_bare`, `Json.Record.map_bare_get?_eq` — records that are the same when
  bare have the same under every other key, as it is or when bare;
* `Value.bare` — a value without the metadata of its nodes;
* `Computed.Overlooks` — a rule gives the same for values that are the same when bare.

Design notes: which parts are carried along is said by the tag of a record and a key. What stands
there is compared as it is, with all metadata inside.
-/
import TypedTree.Proofs.Metadata
import TypedTree.Proofs.Attribute
import TypedTree.Schema.Basic

namespace TypedTree

/-! ### Sources -/

namespace Json

section

variable (carried : String → String → Bool)

mutual

/-- A source without the metadata of its tagged records. What a tagged record has under a key by
which it is carried along stays as it is. -/
def bare : Json → Json
  | null => null
  | bool b => bool b
  | num n => num n
  | str s => str s
  | arr items => arr (bareItems items)
  | obj entries => obj (bareEntries (Record.tag? entries) entries)

/-- Items without metadata. -/
def bareItems : List Json → List Json
  | [] => []
  | item :: rest => bare item :: bareItems rest

/-- The entries of a record with the given tag, without metadata. -/
def bareEntries (tag : Option String) : List (String × Json) → List (String × Json)
  | [] => []
  | (key, value) :: rest =>
    if tag.isSome && Metadata.keys.contains key then bareEntries tag rest
    else (key, if tag.any (carried · key) then value else bare value) :: bareEntries tag rest

end

end

variable {carried : String → String → Bool}

theorem bareItems_eq_map (items : List Json) :
    bareItems carried items = items.map (bare carried) := by
  induction items with
  | nil => rfl
  | cons item items ih => rw [bareItems, ih, List.map_cons]

theorem bareEntries_append (tag : Option String) (before after : Record) :
    bareEntries carried tag (before ++ after) =
      bareEntries carried tag before ++ bareEntries carried tag after := by
  induction before with
  | nil => rfl
  | cons entry before ih =>
    obtain ⟨key, value⟩ := entry
    rw [List.cons_append, bareEntries, bareEntries, ih]
    split <;> rfl

theorem isNull_bare (value : Json) : (value.bare carried).isNull = value.isNull := by
  cases value <;> rfl

theorem all_isNull_eq_of_bare {source source' : Option Json}
    (h : source.map (bare carried) = source'.map (bare carried)) :
    source.all isNull = source'.all isNull := by
  have hall : ∀ source : Option Json,
      (source.map (bare carried)).all isNull = source.all isNull := by
    intro source
    cases source with
    | none => rfl
    | some value => exact isNull_bare value
  rw [← hall source, ← hall source', h]

theorem asString?_bare (value : Json) : (value.bare carried).asString? = value.asString? := by
  cases value <;> rfl

namespace Record

variable {record record' : Record} {tag : Option String} {key : String}

/-- Outside of metadata every key has what it had, as it is or bare. -/
theorem lookup_bareEntries (h : tag = none ∨ key ∉ Metadata.keys) :
    (bareEntries carried tag record).lookup key =
      (record.lookup key).map fun value =>
        if tag.any (carried · key) then value else value.bare carried := by
  induction record with
  | nil => rfl
  | cons entry record ih =>
    obtain ⟨k, value⟩ := entry
    rw [bareEntries]
    by_cases hkey : key = k
    · subst hkey
      have hkeep : (tag.isSome && Metadata.keys.contains key) = false := by
        rcases h with rfl | h
        · rfl
        · simp [h]
      rw [hkeep, List.lookup_cons_self, if_neg Bool.false_ne_true, List.lookup_cons_self]
      rfl
    · rw [List.lookup_cons, beq_false_of_ne hkey, ← ih]
      split
      · rfl
      · rw [List.lookup_cons, beq_false_of_ne hkey]

theorem tag?_eq_bind (record : Record) : tag? record = (record.get? "type").bind asString? := by
  rw [tag?]
  cases record.get? "type" with
  | none => rfl
  | some value => cases value <;> rfl

theorem tag?_bareEntries : tag? (bareEntries carried tag record) = tag? record := by
  have htext : ∀ value : Json,
      (if tag.any (carried · "type") then value else value.bare carried).asString? =
        value.asString? := by
    intro value
    split
    · rfl
    · exact asString?_bare value
  rw [tag?_eq_bind, tag?_eq_bind, get?, get?, lookup_bareEntries (.inr (by decide)),
    Option.bind_map]
  exact congrArg _ (funext htext)

/-- Records that are the same when bare have the same tag. -/
theorem tag?_eq_of_bare (h : (obj record).bare carried = (obj record').bare carried) :
    tag? record = tag? record' := by
  rw [← @tag?_bareEntries carried record (tag? record), obj.inj h, tag?_bareEntries]

/-- Under a key by which nothing is carried along they have the same when bare. -/
theorem map_bare_get?_eq (h : (obj record).bare carried = (obj record').bare carried)
    (hkey : key ∉ Metadata.keys) (hbare : (tag? record).any (carried · key) = false) :
    (record.get? key).map (bare carried) = (record'.get? key).map (bare carried) := by
  have hbare' : (tag? record').any (carried · key) = false := tag?_eq_of_bare h ▸ hbare
  have hlookup := congrArg (List.lookup key) (obj.inj h)
  rw [lookup_bareEntries (.inr hkey), lookup_bareEntries (.inr hkey), hbare, hbare'] at hlookup
  exact hlookup

/-- Under a key by which it is carried along, they have the same as it is. -/
theorem get?_eq_of_bare (h : (obj record).bare carried = (obj record').bare carried)
    (hkey : key ∉ Metadata.keys) (hcarried : (tag? record).any (carried · key) = true) :
    record.get? key = record'.get? key := by
  have hcarried' : (tag? record').any (carried · key) = true := tag?_eq_of_bare h ▸ hcarried
  have hlookup := congrArg (List.lookup key) (obj.inj h)
  rw [lookup_bareEntries (.inr hkey), lookup_bareEntries (.inr hkey), hcarried,
    hcarried'] at hlookup
  simpa [get?] using hlookup

end Record

/-- What stands under a key of metadata in a tagged record does not count. -/
theorem bare_obj_metadata {before after : Record} {key : String} {value : Json}
    (hkey : key ∈ Metadata.keys) (htag : (Record.tag? (before ++ after)).isSome = true) :
    (obj (before ++ (key, value) :: after)).bare carried =
      (obj (before ++ after)).bare carried := by
  have hne : "type" ≠ key := by
    rintro rfl
    exact absurd hkey (by decide)
  have hget : Record.get? (before ++ (key, value) :: after) "type" =
      Record.get? (before ++ after) "type" := by
    rw [Record.get?, Record.get?, List.lookup_append, List.lookup_append, List.lookup_cons,
      beq_false_of_ne hne]
  have htag' : Record.tag? (before ++ (key, value) :: after) = Record.tag? (before ++ after) := by
    rw [Record.tag?_eq_bind, Record.tag?_eq_bind, hget]
  rw [bare, bare, htag', bareEntries_append, bareEntries_append, bareEntries, if_pos]
  rw [htag, List.contains_iff_mem.mpr hkey]
  rfl

/-! ### Kinds of sources -/

/-- What is a plain value when bare is one before. -/
def isScalar : Json → Bool
  | null | bool _ | num _ | str _ => true
  | arr _ | obj _ => false

theorem eq_of_bare_of_isScalar {a b : Json} (ha : a.isScalar = true)
    (h : a.bare carried = b.bare carried) : b = a := by
  cases a <;> cases ha <;> cases b <;> first | exact h.symm | cases h

theorem exists_items_of_bare {items : List Json} {b : Json}
    (h : (arr items).bare carried = b.bare carried) :
    ∃ items', b = arr items' ∧ items.map (bare carried) = items'.map (bare carried) := by
  cases b with
  | arr items' =>
    refine ⟨items', rfl, ?_⟩
    rw [← bareItems_eq_map, ← bareItems_eq_map]
    exact arr.inj h
  | null | bool | num | str | obj => cases h

theorem exists_record_of_bare {record : Record} {b : Json}
    (h : (obj record).bare carried = b.bare carried) : ∃ record', b = obj record' := by
  cases b with
  | obj record' => exact ⟨record', rfl⟩
  | null | bool | num | str | arr => cases h

theorem isRest_bare (value : Json) : (value.bare carried).isRest = value.isRest := by
  cases value with
  | obj entries =>
    rw [bare, isRest, isRest, tag?, tag?, Record.tag?_bareEntries]
  | null | bool | num | str | arr => rfl

theorem isRest_eq_of_bare {a b : Json} (h : a.bare carried = b.bare carried) :
    a.isRest = b.isRest := by
  rw [← @isRest_bare carried a, h, isRest_bare]

/-- Equality with a plain value does not hang on metadata. -/
theorem same_eq_of_bare {a b literal : Json} (hliteral : literal.isScalar = true)
    (h : a.bare carried = b.bare carried) : a.same literal = b.same literal := by
  have hsame : ∀ a : Json, (a.bare carried).same literal = a.same literal := by
    intro a
    cases a <;> cases literal <;> first | rfl | cases hliteral
  rw [← hsame a, ← hsame b, h]

theorem accepts_eq_of_bare {a b : Json} (kind : Primitive)
    (h : a.bare carried = b.bare carried) : kind.accepts a = kind.accepts b := by
  have haccepts : ∀ a : Json, kind.accepts (a.bare carried) = kind.accepts a := by
    intro a
    cases kind <;> cases a <;> rfl
  rw [← haccepts a, ← haccepts b, h]

end Json

theorem isScalar_of_accepts {kind : Primitive} {a : Json} (hkind : kind ≠ .any)
    (h : kind.accepts a = true) : a.isScalar = true := by
  cases kind with
  | any => exact absurd rfl hkind
  | string | number | boolean | null => cases a <;> first | rfl | cases h

/-! ### Rest elements -/

section

variable {carried : String → String → Bool}

/-- A list is taken the same way when it is bare. -/
theorem stripRest_map_bare (items : List Json) :
    stripRest (items.map (Json.bare carried)) = (stripRest items).map (Json.bare carried) := by
  rw [stripRest, stripRest, List.getLast?_map]
  cases items.getLast? with
  | none => rfl
  | some last =>
    rw [Option.map_some]
    dsimp only
    rw [Json.isRest_bare]
    split
    · rw [List.map_dropLast]
    · rfl

theorem bare_restUnder_eq {key : String} {record record' : Json.Record}
    (h : (record.get? key).map (Json.bare carried) = (record'.get? key).map (Json.bare carried)) :
    (restUnder key record).bare carried = (restUnder key record').bare carried := by
  unfold restUnder
  cases hget : record.get? key with
  | none =>
    rw [hget, Option.map_none, eq_comm, Option.map_eq_none_iff] at h
    rw [h]
  | some a =>
    rw [hget, Option.map_some, eq_comm, Option.map_eq_some_iff] at h
    obtain ⟨b, hb, hbare⟩ := h
    rw [hb]
    cases a with
    | arr items =>
      -- Arrays that are the same when bare have last items that are, and rest elements are told by
      -- the tag.
      obtain ⟨items', rfl, hitems⟩ := Json.exists_items_of_bare hbare.symm
      have hlast := congrArg List.getLast? hitems
      rw [List.getLast?_map, List.getLast?_map] at hlast
      dsimp only
      cases hitem : items.getLast? with
      | none =>
        rw [hitem, Option.map_none, eq_comm, Option.map_eq_none_iff] at hlast
        rw [hlast]
      | some last =>
        rw [hitem, Option.map_some, eq_comm, Option.map_eq_some_iff] at hlast
        obtain ⟨last', hitem', hlast⟩ := hlast
        rw [hitem']
        dsimp only
        rw [Json.isRest_eq_of_bare hlast]
        split
        · exact hlast.symm
        · rfl
    | obj record =>
      obtain ⟨record', rfl⟩ := Json.exists_record_of_bare hbare.symm
      rfl
    | null | bool | num | str =>
      obtain rfl := Json.eq_of_bare_of_isScalar rfl hbare.symm
      rfl

end

/-! ### Values -/

namespace Value

mutual

/-- A value without the metadata of its nodes. -/
def bare : Value → Value
  | null => null
  | bool b => bool b
  | number n => number n
  | string s => string s
  | any source => any source
  | list items => list (bareItems items)
  | names set => names set
  | node id typeName fields _ => node id typeName (bareFields fields) none

/-- Items without the metadata of their nodes. -/
def bareItems : List Value → List Value
  | [] => []
  | item :: rest => bare item :: bareItems rest

/-- Fields without the metadata of their nodes. -/
def bareFields : List (String × Value) → List (String × Value)
  | [] => []
  | (name, value) :: rest => (name, bare value) :: bareFields rest

end

theorem bareItems_eq_map (items : List Value) : bareItems items = items.map bare := by
  induction items with
  | nil => rfl
  | cons item items ih => rw [bareItems, ih, List.map_cons]

theorem bareFields_eq_map (fields : List (String × Value)) :
    bareFields fields = fields.map fun entry => (entry.1, bare entry.2) := by
  induction fields with
  | nil => rfl
  | cons entry fields ih => rw [bareFields, ih, List.map_cons]

mutual

/-- The names that a value contributes are those that it contributes when bare. -/
theorem namesUnder_bare (attr : String) : ∀ v : Value, namesUnder attr v.bare = namesUnder attr v
  | null | bool _ | number _ | string _ | any _ | names _ => rfl
  | list items => namesUnderItems_bareItems attr items
  | node id typeName fields metadata => by
    rw [bare, namesUnder, namesUnder, bareFields_eq_map, lookup_map_snd]
    cases fields.lookup attr with
    | none => rfl
    | some v => cases v <;> rfl

theorem namesUnderItems_bareItems (attr : String) :
    ∀ items : List Value, namesUnderItems attr (bareItems items) = namesUnderItems attr items
  | [] => rfl
  | item :: rest => by
    rw [bareItems, namesUnderItems, namesUnderItems, namesUnder_bare attr item,
      namesUnderItems_bareItems attr rest]

end

theorem isNull_bare (v : Value) : v.bare.isNull = v.isNull := by
  cases v <;> rfl

end Value

/-! ### Rules -/

namespace SetExpr

theorem bare_valueAt (args : List Value) (slot : Nat) :
    (valueAt args slot).bare = valueAt (args.map Value.bare) slot := by
  rw [valueAt, valueAt, List.getElem?_map]
  cases args[slot]? <;> rfl

/-- A set expression gives the same for values that are the same when bare. -/
theorem evaluate_eq_of_bare {expr : SetExpr} {args args' : List Value}
    (h : args.map Value.bare = args'.map Value.bare) :
    expr.evaluate args = expr.evaluate args' := by
  have hbare : ∀ slot, (valueAt args slot).bare = (valueAt args' slot).bare := by
    intro slot
    rw [bare_valueAt, bare_valueAt, h]
  have hunder : ∀ attr slot,
      (valueAt args slot).namesUnder attr = (valueAt args' slot).namesUnder attr := by
    intro attr slot
    rw [← Value.namesUnder_bare, hbare, Value.namesUnder_bare]
  have hadded : ∀ term : SetTerm Nat, term.added (valueAt args) = term.added (valueAt args') := by
    intro term
    cases term with
    | take slot attr => exact hunder attr slot
    | name slot =>
      -- Only strings contribute their text, and they have no metadata.
      have htext : ∀ values : Nat → Value, (SetTerm.name slot).added values =
          (values slot).bare.asString?.elim .empty NameSet.empty.insert := by
        intro values
        rw [SetTerm.added]
        cases values slot <;> rfl
      rw [htext, htext, hbare]
    | subtract | exclude => rfl
  have hremoved : ∀ term : SetTerm Nat,
      term.removed (valueAt args) = term.removed (valueAt args') := by
    intro term
    cases term with
    | subtract slot attr => exact hunder attr slot
    | take | name | exclude => rfl
  simp only [evaluate, hadded, hremoved]

end SetExpr

/-- A rule gives the same, when bare, for values that are the same when bare. -/
def Computed.Overlooks (rule : Computed) : Prop :=
  ∀ args args' : List Value, args.map Value.bare = args'.map Value.bare →
    (rule.evaluate args).bare = (rule.evaluate args').bare

theorem Computed.overlooks_always (value : Value) : (always value).Overlooks := fun _ _ _ => rfl

theorem Computed.overlooks_names (expr : SetExpr) : (names expr).Overlooks :=
  fun _ _ h => congrArg Value.names (SetExpr.evaluate_eq_of_bare h)

/-- Whether a rule is given by a value or a set expression, and not by any other function. -/
def Computed.isPlain : Computed → Bool
  | always _ | names _ => true
  | custom _ _ => false

theorem Computed.overlooks_of_isPlain {rule : Computed} (h : rule.isPlain = true) :
    rule.Overlooks := by
  cases rule with
  | always value => exact overlooks_always value
  | names expr => exact overlooks_names expr
  | custom => cases h

end TypedTree
