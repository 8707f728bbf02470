/-
Requests: what a translation asks for on its way down.

A request names a type, the source to be read and its place. Its answer is the result of
the translation, given here once for each shape in terms of the requests it leads to.
Main statements:

* `Registry.answer_array`, `Registry.answer_union` and their neighbours — the answer by
  the shape of the type;
* `Registry.readField_cases` — a field takes what stands ready, its default, or what it reads;
* `Registry.Recurs`, `Registry.Calls` — one request leads to another, by the bodies of types or
  in a registry;
* `Registry.wellFounded_recurs_iff` — this ends if it ends for types at the same source value;
* `Registry.request_induction` — what holds of a request as soon as it holds of all it
  leads to, holds of every request;
* `firstAccepted_cases` — an ordered choice answers with the first alternative that is
  not rejected at the path itself.

Design notes: no single quantity falls along `Recurs`. The room left below the limit falls
from a product to its fields; where it does not, the source gets smaller; and where
neither changes, the next type gets the source of the one before.
-/
import Mathlib.Order.RelClasses
import TypedTree.Proofs.Traversal
import TypedTree.Translation.Basic

namespace TypedTree

/-- What is asked of a translation: a type, the source that may be missing, its place,
and what stands ready for the fields of the node to be built. -/
structure Request where
  id : TypeId
  source : Option Json
  path : Path
  preset : Option Preset
  depth : Nat

namespace Request

/-- A whole source. -/
def whole (id : TypeId) (source : Json) : Request := ⟨id, some source, .root, none, 0⟩

/-- The same source as another type. -/
def as (r : Request) (id : TypeId) : Request := { r with id }

/-- The same source as another type, with a value that stands ready. -/
def handing (r : Request) (id : TypeId) (preset : Preset) : Request :=
  { r with id, preset := some preset }

/-- An item of the source. -/
def item (r : Request) (id : TypeId) (value : Json) (position : Nat) : Request :=
  ⟨id, some value, r.path.index position, none, r.depth⟩

/-- A part of the source that belongs to a field. -/
def part (r : Request) (id : TypeId) (source : Option Json) (path : Path) : Request :=
  ⟨id, source, path, none, r.depth + 1⟩

/-- The inspected field of a record. -/
def probe (r : Request) (i : Inspect) (record : Json.Record) : Request :=
  r.part i.probe (record.get? i.field) (r.path.field i.field)

end Request

/-! ### Ordered choice -/

section

variable {α : Type} {path : Path} {exhausted : TranslationError}
  {f : α → Except TranslationError Value} {a : α} {rest : List α}

/-- The first alternative decides unless it is rejected at the path itself. -/
theorem firstAccepted_cons_of_final (h : ∀ e, f a = .error e → e.rejectedAt path = false) :
    firstAccepted path exhausted f (a :: rest) = f a := by
  rw [firstAccepted]
  cases ha : f a with
  | ok v => rfl
  | error e => simp [h e ha]

/-- A rejected alternative has no say. -/
theorem firstAccepted_cons_of_rejected (h : ∃ e, f a = .error e ∧ e.rejectedAt path = true) :
    firstAccepted path exhausted f (a :: rest) = firstAccepted path exhausted f rest := by
  obtain ⟨e, ha, he⟩ := h
  rw [firstAccepted, ha]
  exact if_pos he

/-- An alternative is rejected, or it decides. -/
theorem rejected_or_final (path : Path) (f : α → Except TranslationError Value) (a : α) :
    (∃ e, f a = .error e ∧ e.rejectedAt path = true) ∨
      ∀ e, f a = .error e → e.rejectedAt path = false := by
  by_cases hrej : ∃ e, f a = .error e ∧ e.rejectedAt path = true
  · exact .inl hrej
  · refine .inr fun e he => ?_
    by_contra hne
    exact hrej ⟨e, he, by simpa using hne⟩

end

/-- An ordered choice answers with its first alternative that is not rejected at the path
itself, or is exhausted. -/
theorem firstAccepted_cases {α : Type} (path : Path) (exhausted : TranslationError)
    (f : α → Except TranslationError Value) (l : List α) :
    (∃ before a after, l = before ++ a :: after ∧
        (∀ b ∈ before, ∃ e, f b = .error e ∧ e.rejectedAt path = true) ∧
        (∀ e, f a = .error e → e.rejectedAt path = false) ∧
        firstAccepted path exhausted f l = f a) ∨
      (∀ a ∈ l, ∃ e, f a = .error e ∧ e.rejectedAt path = true) ∧
        firstAccepted path exhausted f l = .error exhausted := by
  induction l with
  | nil => exact .inr ⟨by simp, rfl⟩
  | cons a l ih =>
    rcases rejected_or_final path f a with hrej | hfinal
    · have hstep : firstAccepted path exhausted f (a :: l) = firstAccepted path exhausted f l :=
        firstAccepted_cons_of_rejected hrej
      rcases ih with ⟨before, b, after, rfl, hbefore, hb, heq⟩ | ⟨hall, heq⟩
      · exact .inl ⟨a :: before, b, after, rfl, List.forall_mem_cons.mpr ⟨hrej, hbefore⟩, hb,
          hstep.trans heq⟩
      · exact .inr ⟨List.forall_mem_cons.mpr ⟨hrej, hall⟩, hstep.trans heq⟩
    · exact .inl ⟨[], a, l, rfl, by simp, hfinal, firstAccepted_cons_of_final hfinal⟩

/-- An ordered choice comes to what stands behind rejected alternatives. -/
theorem firstAccepted_append {α : Type} {path : Path} {exhausted : TranslationError}
    {f : α → Except TranslationError Value} {before : List α}
    (h : ∀ b ∈ before, ∃ e, f b = .error e ∧ e.rejectedAt path = true) (rest : List α) :
    firstAccepted path exhausted f (before ++ rest) = firstAccepted path exhausted f rest := by
  induction before with
  | nil => rfl
  | cons b before ih =>
    obtain ⟨hrej, hbefore⟩ := List.forall_mem_cons.mp h
    exact (firstAccepted_cons_of_rejected hrej).trans (ih hbefore)

theorem firstAccepted_congr_of_mem {α : Type} {path : Path} {exhausted : TranslationError}
    {f g : α → Except TranslationError Value} : ∀ {l : List α}, (∀ x ∈ l, f x = g x) →
    firstAccepted path exhausted f l = firstAccepted path exhausted g l := by
  intro l
  induction l with
  | nil => exact fun _ => rfl
  | cons x l ih =>
    intro h
    obtain ⟨hx, hl⟩ := List.forall_mem_cons.mp h
    rw [firstAccepted, firstAccepted, hx, ih hl]

theorem exists_of_firstAccepted_eq_ok {α : Type} {path : Path} {exhausted : TranslationError}
    {f : α → Except TranslationError Value} {l : List α} {v : Value}
    (h : firstAccepted path exhausted f l = .ok v) : ∃ a ∈ l, f a = .ok v := by
  rcases firstAccepted_cases path exhausted f l with ⟨before, a, after, rfl, -, -, heq⟩ | ⟨-, heq⟩
  · exact ⟨a, by simp, heq ▸ h⟩
  · rw [heq] at h
    cases h

/-- What a field reads in a record. -/
def Field.sourceIn (field : Field) (record : Json.Record) : Option Json :=
  match field.source with
  | .key key => record.get? key
  | .extract extraction => some (extraction.apply record)

/-- The step to what a field reads. -/
def Field.stepKey (field : Field) : String :=
  match field.source with
  | .key key => key
  | .extract extraction => extraction.pathKey

namespace Registry

variable {reg : Registry} {limit : Nat} {r : Request}

/-- The result of a request. -/
def answer (reg : Registry) (limit : Nat) (r : Request) : Except TranslationError Value :=
  reg.translateAt limit r.id r.source r.path r.preset r.depth

theorem translate_eq (reg : Registry) (limit : Nat) (id : TypeId) (source : Json) :
    reg.translate limit id source =
      if reg.contains id then reg.answer limit (.whole id source)
      else .error (.unknownType id.render) := rfl

theorem answer_of_translate_eq_ok {id : TypeId} {source : Json} {v : Value}
    (h : reg.translate limit id source = .ok v) : reg.answer limit (.whole id source) = .ok v := by
  rw [translate_eq] at h
  split at h
  · exact h
  · cases h

/-- The value of a field that is not computed, from the record of its owner. -/
def answerField (reg : Registry) (limit : Nat) (r : Request) (record : Json.Record)
    (field : Field) : Except TranslationError Value :=
  match reg.readField field record r.path r.preset with
  | .settled result => result
  | .translate source path => reg.answer limit (r.part field.type source path)

/-! ### Answers by shape -/

theorem answer_primitive {kind : Primitive} (h : reg.shape r.id = .primitive kind) :
    reg.answer limit r = reg.translatePrimitive r.id kind r.source r.path := by
  rw [answer, translateAt_eq, h]

theorem answer_nameSet (h : reg.shape r.id = .nameSet) :
    reg.answer limit r = reg.translateNames r.id r.source r.path := by
  rw [answer, translateAt_eq, h]

theorem answer_array {item : TypeId} (h : reg.shape r.id = .array item) :
    reg.answer limit r =
      match r.source with
      | some (.arr items) => do
        let values ← (stripRest items).zipIdx.mapM fun x =>
          reg.answer limit (r.item item x.1 x.2)
        return .list values
      | _ => .error (reg.mismatch r.id r.path r.source) := by
  rw [answer, translateAt_eq, h]
  rfl

theorem answer_nullable {inner : TypeId} (h : reg.shape r.id = .nullable inner) :
    reg.answer limit r =
      if r.source.all Json.isNull then .ok .null
      else
        match reg.answer limit (r.as inner) with
        | .ok value => .ok value
        | .error e =>
          if e.rejectedAt r.path then .error (reg.mismatch r.id r.path r.source)
          else .error e := by
  rw [answer, translateAt_eq, h]
  rfl

theorem answer_union {alternatives : List TypeId} (h : reg.shape r.id = .union alternatives) :
    reg.answer limit r =
      firstAccepted r.path (reg.exhausted r.id r.path r.source)
        (fun a => reg.answer limit (r.as a)) alternatives := by
  rw [answer, translateAt_eq, h]
  rfl

theorem answer_product {p : Product} (h : reg.shape r.id = .product p) :
    reg.answer limit r =
      match reg.matchRecord r.id p.source r.source r.path with
      | .error e => .error e
      | .ok record =>
        if r.depth < limit then do
          let slots ← p.fields.mapM fun field =>
            if field.isComputed then .ok none else some <$> reg.answerField limit r record field
          return reg.buildNode r.id p record slots
        else .error (.recursionLimit r.path) := by
  rw [answer, translateAt_eq, h]
  dsimp only
  cases reg.matchRecord r.id p.source r.source r.path with
  | error e => rfl
  | ok record =>
    -- The slot of a field is its answer, once the two readings are told apart.
    have hslot : (fun field : Field =>
        if field.isComputed then .ok none
        else
          match reg.readField field record r.path r.preset with
          | .settled result => some <$> result
          | .translate part partPath =>
            some <$> reg.translateAt limit field.type part partPath none (r.depth + 1)) =
        fun field => if field.isComputed then .ok none
          else some <$> reg.answerField limit r record field := by
      funext field
      rw [answerField]
      cases reg.readField field record r.path r.preset <;> rfl
    exact congrArg (fun slot => if r.depth < limit then do
      let slots ← p.fields.mapM slot
      return reg.buildNode r.id p record slots
      else .error (.recursionLimit r.path)) hslot

theorem answer_inspect {i : Inspect} (h : reg.shape r.id = .inspect i) :
    reg.answer limit r =
      match reg.inspectable? i r.source with
      | none => .error (reg.mismatch r.id r.path r.source)
      | some record =>
        match reg.answer limit (r.probe i record) with
        | .error e => .error e
        | .ok probed =>
          match i.arms.find? (fun arm => reg.isInstance arm.test probed) with
          | none => .error (reg.mismatch r.id r.path r.source)
          | some arm => reg.answer limit (r.handing arm.target ⟨i.field, probed⟩) := by
  rw [answer, translateAt_eq, h]
  rfl

/-! ### Successful answers -/

theorem of_answer_array_eq_ok {item : TypeId} {v : Value} (h : reg.shape r.id = .array item)
    (hv : reg.answer limit r = .ok v) :
    ∃ items values, r.source = some (.arr items) ∧ v = .list values ∧
      List.Forall₂ (fun x value => reg.answer limit (r.item item x.1 x.2) = .ok value)
        (stripRest items).zipIdx values := by
  rw [answer_array h] at hv
  split at hv
  · next items hsource =>
    obtain ⟨values, hvalues, hv⟩ := bind_eq_ok_iff.mp hv
    cases hv
    exact ⟨items, values, hsource, rfl, mapM_eq_ok_iff.mp hvalues⟩
  · cases hv

theorem of_answer_nullable_eq_ok {inner : TypeId} {v : Value}
    (h : reg.shape r.id = .nullable inner) (hv : reg.answer limit r = .ok v) :
    r.source.all Json.isNull = true ∧ v = .null ∨
      r.source.all Json.isNull = false ∧ reg.answer limit (r.as inner) = .ok v := by
  rw [answer_nullable h] at hv
  split at hv
  · next hnull =>
    cases hv
    exact .inl ⟨hnull, rfl⟩
  · next hnull =>
    refine .inr ⟨by simpa using hnull, ?_⟩
    split at hv
    · next hin => rw [hin, hv]
    · split at hv <;> cases hv

theorem of_answer_union_eq_ok {alternatives : List TypeId} {v : Value}
    (h : reg.shape r.id = .union alternatives) (hv : reg.answer limit r = .ok v) :
    ∃ a ∈ alternatives, reg.answer limit (r.as a) = .ok v := by
  rw [answer_union h] at hv
  exact exists_of_firstAccepted_eq_ok hv

/-- The slot of a field before the computed fields are evaluated. -/
def Supplies (reg : Registry) (limit : Nat) (r : Request) (record : Json.Record) (field : Field)
    (slot : Option Value) : Prop :=
  if field.isComputed then slot = none
  else ∃ v, slot = some v ∧ reg.answerField limit r record field = .ok v

theorem of_answer_product_eq_ok {p : Product} {v : Value} (h : reg.shape r.id = .product p)
    (hv : reg.answer limit r = .ok v) :
    ∃ record slots, reg.matchRecord r.id p.source r.source r.path = .ok record ∧
      r.depth < limit ∧ List.Forall₂ (reg.Supplies limit r record) p.fields slots ∧
      v = reg.buildNode r.id p record slots := by
  rw [answer_product h] at hv
  split at hv
  · cases hv
  · next record hrecord =>
    split at hv
    · next hdepth =>
      obtain ⟨slots, hslots, hv⟩ := bind_eq_ok_iff.mp hv
      cases hv
      refine ⟨record, slots, hrecord, hdepth, (mapM_eq_ok_iff.mp hslots).imp ?_, rfl⟩
      intro field slot hslot
      rw [Supplies]
      split at hslot
      · next hcomp =>
        cases hslot
        rw [if_pos hcomp]
      · next hcomp =>
        rw [if_neg hcomp]
        cases hfield : reg.answerField limit r record field with
        | error e =>
          rw [hfield] at hslot
          cases hslot
        | ok value =>
          rw [hfield] at hslot
          cases hslot
          exact ⟨value, rfl, rfl⟩
    · cases hv

/-- A product answers with the node of the slots that its fields supply. -/
theorem answer_product_of_supplies {p : Product} {record : Json.Record}
    {slots : List (Option Value)} (hshape : reg.shape r.id = .product p)
    (hrecord : reg.matchRecord r.id p.source r.source r.path = .ok record)
    (hdepth : r.depth < limit)
    (hslots : List.Forall₂ (reg.Supplies limit r record) p.fields slots) :
    reg.answer limit r = .ok (reg.buildNode r.id p record slots) := by
  have hmapM : (p.fields.mapM fun field => if field.isComputed then .ok none
      else some <$> reg.answerField limit r record field) = .ok slots := by
    refine mapM_eq_ok_iff.mpr (hslots.imp fun field slot hslot => ?_)
    rw [Supplies] at hslot
    split at hslot
    · next hcomp => rw [if_pos hcomp, hslot]
    · next hcomp =>
      obtain ⟨v, rfl, hv⟩ := hslot
      rw [if_neg hcomp, hv]
      rfl
  rw [answer_product hshape, hrecord]
  dsimp only
  rw [if_pos hdepth, hmapM]
  rfl

/-- A product fails with the failure of its pattern or of a field, or as there is no room for
a node. -/
theorem of_answer_product_eq_error {p : Product} {e : TranslationError}
    (h : reg.shape r.id = .product p) (he : reg.answer limit r = .error e) :
    reg.matchRecord r.id p.source r.source r.path = .error e ∨
      ∃ record, reg.matchRecord r.id p.source r.source r.path = .ok record ∧
        (r.depth < limit ∧ (∃ field ∈ p.fields, field.isComputed = false ∧
            reg.answerField limit r record field = .error e) ∨
          limit ≤ r.depth ∧ e = .recursionLimit r.path) := by
  rw [answer_product h] at he
  split at he
  · next e' hmatch =>
    cases he
    exact .inl hmatch
  · next record hmatch =>
    refine .inr ⟨record, hmatch, ?_⟩
    split at he
    · next hwithin =>
      refine .inl ⟨hwithin, ?_⟩
      -- The node itself is always made, so the failure is that of a field.
      rcases bind_eq_error_iff.mp he with hslots | ⟨slots, -, hnode⟩
      · obtain ⟨field, hmem, hfield⟩ := exists_of_mapM_eq_error hslots
        split at hfield
        · cases hfield
        · next hcomp =>
          refine ⟨field, hmem, by simpa using hcomp, ?_⟩
          cases hanswer : reg.answerField limit r record field with
          | ok v =>
            rw [hanswer] at hfield
            cases hfield
          | error e' =>
            rw [hanswer] at hfield
            cases hfield
            rfl
      · cases hnode
    · next hbeyond =>
      cases he
      exact .inr ⟨Nat.le_of_not_lt hbeyond, rfl⟩

theorem of_answer_inspect_eq_ok {i : Inspect} {v : Value} (h : reg.shape r.id = .inspect i)
    (hv : reg.answer limit r = .ok v) :
    ∃ record probed arm, reg.inspectable? i r.source = some record ∧
      reg.answer limit (r.probe i record) = .ok probed ∧
      i.arms.find? (fun arm => reg.isInstance arm.test probed) = some arm ∧
      reg.answer limit (r.handing arm.target ⟨i.field, probed⟩) = .ok v := by
  rw [answer_inspect h] at hv
  split at hv
  · cases hv
  · next record hrecord =>
    split at hv
    · cases hv
    · next probed hprobed =>
      split at hv
      · cases hv
      · next arm harm => exact ⟨record, probed, arm, hrecord, hprobed, harm, hv⟩

theorem readSource_cases (field : Field) (source : Option Json) (path : Path) :
    (∃ v, field.population = .default v ∧ source.all Json.isNull = true ∧
        readSource field source path = .settled (.ok v)) ∨
      (∀ v, field.population = .default v → source.all Json.isNull = false) ∧
        readSource field source path = .translate source path := by
  unfold readSource
  split
  · next v hv =>
    by_cases hnull : source.all Json.isNull = true
    · exact .inl ⟨v, hv, hnull, if_pos hnull⟩
    · exact .inr ⟨fun _ _ => by simpa using hnull, if_neg hnull⟩
  · next hr => exact .inr ⟨fun v hv => by simp [hr] at hv, rfl⟩
  · next hc => exact .inr ⟨fun v hv => by simp [hc] at hv, rfl⟩

/-- A field takes the value that stands ready for its key. Otherwise an extracted value and a key
of the record are read alike. -/
theorem readField_eq_takePreset_or_readSource (reg : Registry) (field : Field)
    (record : Json.Record) (path : Path) (preset : Option Preset) :
    (∃ ready, preset = some ready ∧ field.source = .key ready.key ∧
        reg.readField field record path preset =
          .settled (reg.takePreset field.type ready.value (path.field ready.key))) ∨
      reg.readField field record path preset =
        readSource field (field.sourceIn record) (path.field field.stepKey) := by
  rw [readField, Field.sourceIn, Field.stepKey]
  cases hsource : field.source with
  | extract e => exact .inr rfl
  | key key =>
    cases preset with
    | none => exact .inr rfl
    | some ready =>
      by_cases hkey : ready.key = key
      · subst hkey
        exact .inl ⟨ready, rfl, rfl, if_pos rfl⟩
      · exact .inr (if_neg hkey)

/-- A field takes the value that stands ready for its key, or its default if the record has
nothing for it, or what it reads in the record is translated. -/
theorem readField_cases (reg : Registry) (field : Field) (record : Json.Record) (path : Path)
    (preset : Option Preset) :
    (∃ ready, preset = some ready ∧ field.source = .key ready.key ∧
        reg.readField field record path preset =
          .settled (reg.takePreset field.type ready.value (path.field ready.key))) ∨
      (∃ d, field.population = .default d ∧ (field.sourceIn record).all Json.isNull = true ∧
        reg.readField field record path preset = .settled (.ok d)) ∨
      reg.readField field record path preset =
        .translate (field.sourceIn record) (path.field field.stepKey) := by
  refine (readField_eq_takePreset_or_readSource reg field record path preset).imp_right ?_
  intro hread
  rw [hread]
  exact (readSource_cases field (field.sourceIn record) (path.field field.stepKey)).imp_right
    And.right

/-- Three ways to the value of a field: its default, the value that stands ready, or a
translation of its own. -/
theorem of_answerField_eq_ok {record : Json.Record} {field : Field} {v : Value}
    (h : reg.answerField limit r record field = .ok v) :
    field.population = .default v ∨
      (∃ preset, r.preset = some preset ∧ field.source = .key preset.key ∧
        reg.isInstance field.type preset.value = true ∧ v = preset.value) ∨
      ∃ source path, reg.answer limit (r.part field.type source path) = .ok v := by
  rw [answerField] at h
  rcases readField_cases reg field record r.path r.preset with
    ⟨ready, hready, hkey, heq⟩ | ⟨d, hd, -, heq⟩ | heq
  · rw [heq] at h
    dsimp only at h
    rw [takePreset] at h
    split at h
    · next hinst =>
      cases h
      exact .inr (.inl ⟨ready, hready, hkey, hinst, rfl⟩)
    · cases h
  · rw [heq] at h
    cases h
    exact .inl hd
  · rw [heq] at h
    exact .inr (.inr ⟨_, _, h⟩)

/-! ### One request leads to another -/

/-- The requests that a request may lead to where types have the given bodies, whatever is
extracted from a record and whatever stands ready. -/
inductive Recurs (shape : TypeId → Shape) (limit : Nat) : Request → Request → Prop
  | item {r : Request} {item : TypeId} {items : List Json} {v : Json} {i : Nat}
      (body : shape r.id = .array item) (source : r.source = some (.arr items))
      (mem : (v, i) ∈ (stripRest items).zipIdx) : Recurs shape limit r (r.item item v i)
  | samePath {r : Request} {next : TypeId} {preset : Option Preset}
      (mem : next ∈ (shape r.id).samePath) : Recurs shape limit r { r with id := next, preset }
  | field {r : Request} {id : TypeId} {source : Option Json} {path : Path}
      (within : r.depth < limit) : Recurs shape limit r (r.part id source path)
  | probe {r : Request} {i : Inspect} {record : Json.Record} (body : shape r.id = .inspect i)
      (source : r.source = some (.obj record)) : Recurs shape limit r (r.probe i record)

/-- The requests that a request may lead to. -/
inductive Calls (reg : Registry) (limit : Nat) : Request → Request → Prop
  | item {r : Request} {item : TypeId} {items : List Json} {v : Json} {i : Nat}
      (shape : reg.shape r.id = .array item) (source : r.source = some (.arr items))
      (mem : (v, i) ∈ (stripRest items).zipIdx) : Calls reg limit r (r.item item v i)
  | samePath {r : Request} {next : TypeId} (mem : next ∈ (reg.shape r.id).samePath) :
      Calls reg limit r (r.as next)
  | target {r : Request} {next : TypeId} {preset : Preset}
      (mem : next ∈ (reg.shape r.id).samePath) : Calls reg limit r (r.handing next preset)
  | field {r : Request} {id : TypeId} {source : Option Json} {path : Path}
      (within : r.depth < limit) : Calls reg limit r (r.part id source path)
  | probe {r : Request} {i : Inspect} {record : Json.Record}
      (shape : reg.shape r.id = .inspect i) (source : reg.inspectable? i r.source = some record) :
      Calls reg limit r (r.probe i record)

theorem Calls.recurs {r' : Request} (h : Calls reg limit r r') : Recurs reg.shape limit r r' := by
  cases h with
  | item shape source mem => exact .item shape source mem
  | samePath mem => exact .samePath mem
  | target mem => exact .samePath mem
  | field within => exact .field within
  | probe shape source => exact .probe shape (eq_of_inspectable? source)

/-- A type gets the source value of another. -/
def Follows (shape : TypeId → Shape) (next id : TypeId) : Prop := next ∈ (shape id).samePath

/-- What falls from a request to those it may lead to: the room below the limit, else the source,
else the type at the same source value. -/
def Falls (shape : TypeId → Shape) (limit : Nat) (r' r : Request) : Prop :=
  Prod.Lex (· < ·) (Prod.Lex (· < ·) (Follows shape))
    (limit - r'.depth, sizeOf r'.source, r'.id) (limit - r.depth, sizeOf r.source, r.id)

theorem sizeOf_get?_lt (record : Json.Record) (key : String) :
    sizeOf (record.get? key) < sizeOf (some (Json.obj record)) := by
  cases hget : record.get? key with
  | none =>
    simp only [Option.none.sizeOf_spec, Option.some.sizeOf_spec, Json.obj.sizeOf_spec]
    omega
  | some value =>
    have hlt := Json.Record.sizeOf_get?_lt hget
    simp only [Option.some.sizeOf_spec, Json.obj.sizeOf_spec]
    omega

theorem sizeOf_item_lt {items : List Json} {v : Json} {i : Nat}
    (h : (v, i) ∈ (stripRest items).zipIdx) :
    sizeOf (some v) < sizeOf (some (Json.arr items)) := by
  have hv : v ∈ items := mem_of_mem_stripRest (List.fst_mem_of_mem_zipIdx h)
  have hlt := List.sizeOf_lt_of_mem hv
  simp only [Option.some.sizeOf_spec, Json.arr.sizeOf_spec]
  omega

theorem Recurs.falls {shape : TypeId → Shape} {r' : Request} (h : Recurs shape limit r r') :
    Falls shape limit r' r := by
  cases h with
  | item body source mem =>
    refine Prod.Lex.right _ (Prod.Lex.left _ _ ?_)
    rw [source]
    exact sizeOf_item_lt mem
  | samePath mem => exact Prod.Lex.right _ (Prod.Lex.right _ mem)
  | field within =>
    refine Prod.Lex.left _ _ ?_
    show limit - (r.depth + 1) < limit - r.depth
    omega
  | @probe i record body source =>
    have hsize : sizeOf (record.get? i.field) < sizeOf r.source := by
      rw [source]
      exact sizeOf_get?_lt record i.field
    rcases Nat.lt_or_ge r.depth limit with hlt | hge
    · refine Prod.Lex.left _ _ ?_
      show limit - (r.depth + 1) < limit - r.depth
      omega
    · -- no room is left below the limit, so only the source can get smaller
      have heq : limit - (r.depth + 1) = limit - r.depth := by omega
      show Prod.Lex _ _ (limit - (r.depth + 1), sizeOf (record.get? i.field), i.probe) _
      rw [heq]
      exact Prod.Lex.right _ (Prod.Lex.left _ _ hsize)

/-- Requests lead to requests without end only if types at the same source value do. -/
theorem wellFounded_recurs_iff {shape : TypeId → Shape} :
    (WellFounded fun r' r => Recurs shape limit r r') ↔ WellFounded (Follows shape) := by
  constructor
  · intro hwf
    refine Subrelation.wf ?_ (InvImage.wf (fun id => (⟨id, none, .root, none, 0⟩ : Request)) hwf)
    intro next id hnext
    have hstep : Recurs shape limit ⟨id, none, .root, none, 0⟩ ⟨next, none, .root, none, 0⟩ :=
      .samePath hnext
    exact hstep
  · intro hwf
    have hlex := WellFounded.prod_lex Nat.lt_wfRel.wf
      (WellFounded.prod_lex Nat.lt_wfRel.wf hwf)
    refine Subrelation.wf ?_ (InvImage.wf
      (fun r : Request => (limit - r.depth, sizeOf r.source, r.id)) hlex)
    exact fun h => h.falls

theorem wellFounded_follows (reg : Registry) : WellFounded (Follows reg.shape) :=
  Subrelation.wf (fun h => reg.samePath_rank_lt h) (InvImage.wf reg.rank Nat.lt_wfRel.wf)

/-- What holds of a request as soon as it holds of all it leads to, holds of every
request. -/
theorem request_induction (reg : Registry) (limit : Nat) {motive : Request → Prop}
    (step : ∀ r, (∀ r', Calls reg limit r r' → motive r') → motive r) : ∀ r, motive r := by
  have hwf : WellFounded fun r' r => Recurs reg.shape limit r r' :=
    wellFounded_recurs_iff.mpr (wellFounded_follows reg)
  intro r
  induction r using hwf.induction with
  | _ r ih => exact step r fun r' h => ih r' h.recurs

end Registry

end TypedTree
