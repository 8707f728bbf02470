/-
Translation of source trees as types of a registry.

Source tree and schema are walked together. Main statements:

* `Registry.translateAt` — the value of a source under a type, at a path and a depth of
  nested nodes;
* `Registry.translateAt_eq` — the same by cases on the shape of the type;
* `Registry.translate` — the value of a whole source.

Unions resolve by ordered choice: an alternative that is rejected at the path of the
union gives way to the next one, and any other failure is final, for the alternative
had matched by then.

Design notes: products are the only place where the depth is checked, and fields are
where it grows. Arrays and inspected fields go down in the source, and unions,
nullables and inspect targets go down in the rank that the registry promises, so the
three together fall from call to call; extracted values may be of any size.
-/
import TypedTree.Translation.Product

namespace TypedTree

/-- The result of the first alternative that is not rejected at the path itself. -/
def firstAccepted {α : Type} (path : Path) (exhausted : TranslationError)
    (translate : α → Except TranslationError Value) : List α → Except TranslationError Value
  | [] => .error exhausted
  | alternative :: rest =>
    match translate alternative with
    | .ok value => .ok value
    | .error e =>
      if e.rejectedAt path then firstAccepted path exhausted translate rest else .error e

theorem firstAccepted_attach {α : Type} (path : Path) (exhausted : TranslationError)
    (translate : α → Except TranslationError Value) (l : List α) :
    firstAccepted path exhausted (fun x => translate x.1) l.attach =
      firstAccepted path exhausted translate l := by
  suffices ∀ (m : List { x // x ∈ l }),
      firstAccepted path exhausted (fun x => translate x.1) m =
        firstAccepted path exhausted translate (m.map Subtype.val) by
    rw [this, List.attach_map_subtype_val]
  intro m
  induction m with
  | nil => rfl
  | cons x rest ih =>
    simp only [List.map_cons, firstAccepted]
    rw [ih]

theorem Json.Record.sizeOf_get?_lt {record : Json.Record} {key : String} {value : Json}
    (h : record.get? key = some value) : sizeOf value < sizeOf record := by
  induction record with
  | nil => simp [Json.Record.get?] at h
  | cons entry rest ih =>
    obtain ⟨k, v⟩ := entry
    rw [Json.Record.get?, List.lookup_cons] at h
    simp only [List.cons.sizeOf_spec, Prod.mk.sizeOf_spec]
    split at h
    · cases h
      omega
    · have := ih h
      omega

theorem mem_of_mem_stripRest {v : Json} {items : List Json} (h : v ∈ stripRest items) :
    v ∈ items := by
  unfold stripRest at h
  split at h
  · split at h
    · exact (List.dropLast_sublist items).mem h
    · exact h
  · exact h

namespace Registry

/-- Whether a record with the given tag could be built as the type: some product that
gets the same source value reads that tag. -/
def buildsFrom (reg : Registry) (tag : String) (id : TypeId) : Bool :=
  (match (reg.shape id).asProduct? with
    | some p => p.source.tag == tag
    | none => false) ||
  (reg.shape id).samePath.attach.any fun ⟨next, _⟩ => reg.buildsFrom tag next
termination_by reg.rank id
decreasing_by exact reg.samePath_rank_lt ‹_›

/-- A source of the given kind, as it is. -/
def translatePrimitive (reg : Registry) (id : TypeId) (kind : Primitive) (source : Option Json)
    (path : Path) : Except TranslationError Value :=
  match kind, source with
  | .null, none | .any, none => .ok .null
  | .any, some value => .ok (.any value)
  | kind, some value =>
    if kind.accepts value then .ok (.ofLiteral value) else .error (reg.mismatch id path source)
  | _, none => .error (reg.mismatch id path source)

/-- The set of the strings of an array; the first item that is none is at fault. -/
def collectNames (path : Path) : List Json → Nat → NameSet → Except TranslationError NameSet
  | [], _, set => .ok set
  | item :: rest, position, set =>
    match item.asString? with
    | some name => collectNames path rest (position + 1) (set.insert name)
    | none =>
      .error (.rejected
        ⟨.mismatch, .type Primitive.string.name, path.index position, .of (some item)⟩)

/-- An array of strings as a set. -/
def translateNames (reg : Registry) (id : TypeId) (source : Option Json) (path : Path) :
    Except TranslationError Value :=
  match source with
  | some (.arr items) => (collectNames path items 0 .empty).map .names
  | _ => .error (reg.mismatch id path source)

/-- The record that an inspect shape may look into: one that some target can be built
from. -/
def inspectable? (reg : Registry) (i : Inspect) (source : Option Json) : Option Json.Record :=
  match source with
  | some (.obj record) =>
    match Json.Record.tag? record with
    | some tag =>
      if i.arms.any (fun arm => reg.buildsFrom tag arm.target) then some record
      else none
    | none => none
  | _ => none

theorem eq_of_inspectable? {reg : Registry} {i : Inspect} {source : Option Json}
    {record : Json.Record} (h : reg.inspectable? i source = some record) :
    source = some (.obj record) := by
  unfold inspectable? at h
  split at h
  · split at h
    · split at h
      · cases h; rfl
      · cases h
    · cases h
  · cases h

/-- The node of a product, from its record and the values of the fields that are not
computed. -/
def buildNode (reg : Registry) (id : TypeId) (p : Product) (record : Json.Record)
    (slots : List (Option Value)) : Value :=
  .node id (reg.name id) (p.complete (reg.plan id) slots) (Metadata.ofRecord? record)

/-- The value of a source under a type. The source may be missing; `preset` is a value
that stands ready for a field of the product to be built; `depth` counts the nodes
around this one, of which there may be at most `limit`. -/
def translateAt (reg : Registry) (limit : Nat) (id : TypeId) (source : Option Json) (path : Path)
    (preset : Option Preset) (depth : Nat) : Except TranslationError Value :=
  match _shape : reg.shape id with
  | .primitive kind => reg.translatePrimitive id kind source path
  | .nameSet => reg.translateNames id source path
  | .array item =>
    match source with
    | some (.arr items) => do
      let values ← (stripRest items).attach.zipIdx.mapM fun ⟨⟨v, _⟩, i⟩ =>
        reg.translateAt limit item (some v) (path.index i) none depth
      return .list values
    | _ => .error (reg.mismatch id path source)
  | .nullable inner =>
    if source.all Json.isNull then .ok .null
    else
      match reg.translateAt limit inner source path preset depth with
      | .ok value => .ok value
      | .error e => if e.rejectedAt path then .error (reg.mismatch id path source) else .error e
  | .union alternatives =>
    firstAccepted path (reg.exhausted id path source)
      (fun ⟨alternative, _⟩ => reg.translateAt limit alternative source path preset depth)
      alternatives.attach
  | .product p =>
    match reg.matchRecord id p.source source path with
    | .error e => .error e
    | .ok record =>
      if _within : depth < limit then do
        let slots ← p.fields.mapM fun field =>
          if field.isComputed then .ok none
          else
            match reg.readField field record path preset with
            | .settled result => some <$> result
            | .translate part partPath =>
              some <$> reg.translateAt limit field.type part partPath none (depth + 1)
        return reg.buildNode id p record slots
      else .error (.recursionLimit path)
  | .inspect i =>
    match _record : reg.inspectable? i source with
    | none => .error (reg.mismatch id path source)
    | some record =>
      match reg.translateAt limit i.probe (record.get? i.field) (path.field i.field) none
          (depth + 1) with
      | .error e => .error e
      | .ok probed =>
        match _arm : i.arms.find? (fun arm => reg.isInstance arm.test probed) with
        | none => .error (reg.mismatch id path source)
        | some arm => reg.translateAt limit arm.target source path (some ⟨i.field, probed⟩) depth
termination_by (limit - depth, sizeOf source, reg.rank id)
decreasing_by
  · apply Prod.Lex.right
    apply Prod.Lex.left
    have := List.sizeOf_lt_of_mem (mem_of_mem_stripRest ‹_ ∈ stripRest items›)
    simp only [Option.some.sizeOf_spec, Json.arr.sizeOf_spec]
    omega
  · apply Prod.Lex.right
    apply Prod.Lex.right
    exact reg.samePath_rank_lt (by simp [_shape, Shape.samePath])
  · apply Prod.Lex.right
    apply Prod.Lex.right
    exact reg.samePath_rank_lt (by simpa [_shape, Shape.samePath] using ‹_›)
  · apply Prod.Lex.left
    omega
  · have hsource : sizeOf (record.get? i.field) < sizeOf source := by
      rw [eq_of_inspectable? _record]
      cases hget : record.get? i.field with
      | none =>
        simp only [Option.none.sizeOf_spec, Option.some.sizeOf_spec, Json.obj.sizeOf_spec]
        omega
      | some value =>
        have := Json.Record.sizeOf_get?_lt hget
        simp only [Option.some.sizeOf_spec, Json.obj.sizeOf_spec]
        omega
    rcases Nat.lt_or_ge depth limit with hlt | hge
    · apply Prod.Lex.left
      omega
    · have heq : limit - (depth + 1) = limit - depth := by omega
      rw [heq]
      apply Prod.Lex.right
      apply Prod.Lex.left
      exact hsource
  · apply Prod.Lex.right
    apply Prod.Lex.right
    refine reg.samePath_rank_lt ?_
    simp only [_shape, Shape.samePath]
    exact List.mem_map_of_mem (List.mem_of_find?_eq_some _arm)

/-! ### Unfolding -/

theorem mapM_attach_zipIdx (f : Json → Nat → Except TranslationError Value) (l : List Json) :
    (l.attach.zipIdx.mapM fun x => f x.1.1 x.2) = l.zipIdx.mapM fun x => f x.1 x.2 := by
  have h : l.zipIdx = l.attach.zipIdx.map (Prod.map Subtype.val id) := by
    rw [← List.zipIdx_map, List.attach_map_subtype_val]
  rw [h, List.mapM_map]
  rfl

theorem buildsFrom_eq (reg : Registry) (tag : String) (id : TypeId) :
    reg.buildsFrom tag id =
      ((match (reg.shape id).asProduct? with
        | some p => p.source.tag == tag
        | none => false) ||
      (reg.shape id).samePath.any fun next => reg.buildsFrom tag next) := by
  rw [buildsFrom]
  simp

/-- Translation by cases on the shape of the type. -/
theorem translateAt_eq (reg : Registry) (limit : Nat) (id : TypeId) (source : Option Json)
    (path : Path) (preset : Option Preset) (depth : Nat) :
    reg.translateAt limit id source path preset depth =
      match reg.shape id with
      | .primitive kind => reg.translatePrimitive id kind source path
      | .nameSet => reg.translateNames id source path
      | .array item =>
        match source with
        | some (.arr items) => do
          let values ← (stripRest items).zipIdx.mapM fun (v, i) =>
            reg.translateAt limit item (some v) (path.index i) none depth
          return .list values
        | _ => .error (reg.mismatch id path source)
      | .nullable inner =>
        if source.all Json.isNull then .ok .null
        else
          match reg.translateAt limit inner source path preset depth with
          | .ok value => .ok value
          | .error e =>
            if e.rejectedAt path then .error (reg.mismatch id path source) else .error e
      | .union alternatives =>
        firstAccepted path (reg.exhausted id path source)
          (fun alternative => reg.translateAt limit alternative source path preset depth)
          alternatives
      | .product p =>
        match reg.matchRecord id p.source source path with
        | .error e => .error e
        | .ok record =>
          if depth < limit then do
            let slots ← p.fields.mapM fun field =>
              if field.isComputed then .ok none
              else
                match reg.readField field record path preset with
                | .settled result => some <$> result
                | .translate part partPath =>
                  some <$> reg.translateAt limit field.type part partPath none (depth + 1)
            return reg.buildNode id p record slots
          else .error (.recursionLimit path)
      | .inspect i =>
        match reg.inspectable? i source with
        | none => .error (reg.mismatch id path source)
        | some record =>
          match reg.translateAt limit i.probe (record.get? i.field) (path.field i.field) none
              (depth + 1) with
          | .error e => .error e
          | .ok probed =>
            match i.arms.find? (fun arm => reg.isInstance arm.test probed) with
            | none => .error (reg.mismatch id path source)
            | some arm =>
              reg.translateAt limit arm.target source path (some ⟨i.field, probed⟩) depth := by
  rw [translateAt]
  split <;> rename_i hshape <;> simp only [hshape]
  · rename_i item
    split
    · exact congrArg (· >>= fun values => pure (Value.list values)) (mapM_attach_zipIdx
        (fun v i => reg.translateAt limit item (some v) (path.index i) none depth) _)
    · rfl
  · exact firstAccepted_attach path _
      (fun alternative => reg.translateAt limit alternative source path preset depth) _
  · split <;> simp_all
  · split
    · simp_all
    · next record hrecord =>
      simp only [hrecord]
      split
      · rfl
      · split <;> rename_i hfind <;> simp only [hfind]

/-! ### Whole sources -/

/-- The depth of nested nodes that is allowed unless another is asked for. -/
def defaultLimit : Nat := 256

/-- The value of a whole source under a type of the registry. -/
def translate (reg : Registry) (limit : Nat) (id : TypeId) (source : Json) :
    Except TranslationError Value :=
  if reg.contains id then reg.translateAt limit id (some source) .root none 0
  else .error (.unknownType id.render)

/-- The value of a whole source under the type of a name. -/
def translateNamed (reg : Registry) (limit : Nat) (name : String) (source : Json) :
    Except TranslationError Value :=
  match reg.find? name with
  | some id => reg.translate limit id source
  | none => .error (.unknownType name)

end Registry

end TypedTree
