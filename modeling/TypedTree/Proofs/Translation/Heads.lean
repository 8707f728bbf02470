/-
What of a source decides whether a type rejects it.

A type that reads a source rejects it at its own place by its kind, and a record by its tag
alone, if no product asks for further entries. Main statements:

* `Json.Head` — the kind of a source value, with the tag of a record;
* `Registry.Rejects` — a request fails at its own place;
* `Registry.rejects_array_iff` and its neighbours — what is rejected, by the shape of the type;
* `Registry.rejects_iff_of_head` — sources with the same head are rejected alike.

Design notes: a missing source has the head of `null`. Some types accept the one and the other,
all other types reject both.
-/
import TypedTree.Proofs.Translation.Location

namespace TypedTree

namespace Json

/-- The kind of a value, with the tag of a record. -/
inductive Head where
  | null
  | bool
  | num
  | str
  | arr
  | obj (tag : Option String)
deriving DecidableEq

/-- The head of a value. -/
def head : Json → Head
  | null => .null
  | bool _ => .bool
  | num _ => .num
  | str _ => .str
  | arr _ => .arr
  | obj entries => .obj (Record.tag? entries)

/-- The head of a source that may be missing. -/
def headOf (source : Option Json) : Head := (source.getD .null).head

theorem isNull_eq_true_iff_head {value : Json} : value.isNull = true ↔ value.head = .null := by
  cases value <;> simp [isNull, head]

theorem all_isNull_iff_headOf {source : Option Json} :
    source.all isNull = true ↔ headOf source = .null := by
  cases source with
  | none => simp [headOf, head]
  | some value => exact isNull_eq_true_iff_head

end Json

/-- Only a record has the head of one. -/
theorem Json.exists_record_of_headOf {source : Option Json} {tag : Option String}
    (h : headOf source = .obj tag) : ∃ record, source = some (.obj record) ∧
      Json.Record.tag? record = tag := by
  cases source with
  | none => cases h
  | some value =>
    cases value with
    | obj record => exact ⟨record, rfl, Head.obj.inj h⟩
    | null | bool | num | str | arr => cases h

/-- Whether a kind accepts a value is a matter of its head. -/
theorem Primitive.accepts_of_head {kind : Primitive} {a b : Json} (h : a.head = b.head) :
    kind.accepts a = kind.accepts b := by
  cases kind <;> cases a <;> cases b <;> first | rfl | cases h

/-- A failure further down is no rejection at a path. -/
theorem TranslationError.rejectedAt_eq_false_of_keys {e : TranslationError} {path place : Path}
    {key : PathKey} {keys : List PathKey} (hplace : e.path? = some place)
    (hkeys : place.keys = path.keys ++ key :: keys) : e.rejectedAt path = false := by
  cases e with
  | rejected r =>
    cases hplace
    refine decide_eq_false ?_
    rintro rfl
    have hlength := congrArg List.length hkeys
    rw [List.length_append, List.length_cons] at hlength
    omega
  | recursionLimit => rfl
  | unknownType => rfl

/-- The same request for another source. -/
def Request.withSource (r : Request) (source : Option Json) : Request := { r with source }

namespace Registry

open Json (headOf)

variable {reg : Registry} {limit : Nat} {r : Request}

/-- A request is rejected at its own place. -/
def Rejects (reg : Registry) (limit : Nat) (r : Request) : Prop :=
  ∃ e, reg.answer limit r = .error e ∧ e.rejectedAt r.path = true

theorem not_rejects_iff : ¬ reg.Rejects limit r ↔
    ∀ e, reg.answer limit r = .error e → e.rejectedAt r.path = false := by
  simp [Rejects]

theorem not_rejects_of_ok {v : Value} (h : reg.answer limit r = .ok v) :
    ¬ reg.Rejects limit r := by
  rintro ⟨e, he, -⟩
  rw [h] at he
  cases he

/-! ### Rejection by the shape of the type -/

theorem exists_translatePrimitive_iff {id : TypeId} {kind : Primitive} {source : Option Json}
    {path : Path} : (∃ v, reg.translatePrimitive id kind source path = .ok v) ↔
      kind.accepts (source.getD .null) = true := by
  cases source with
  | none => cases kind <;> simp [translatePrimitive, Primitive.accepts]
  | some value =>
    rw [Option.getD_some, translatePrimitive.eq_def]
    cases kind with
    | any => simp [Primitive.accepts]
    | string | number | boolean | null =>
      dsimp only
      split <;> simp_all

theorem rejects_primitive_iff {kind : Primitive} (hshape : reg.shape r.id = .primitive kind) :
    reg.Rejects limit r ↔ kind.accepts (r.source.getD .null) = false := by
  rw [Rejects, answer_primitive hshape, ← Bool.not_eq_true, ← exists_translatePrimitive_iff]
  constructor
  · rintro ⟨e, he, -⟩ ⟨v, hv⟩
    rw [he] at hv
    cases hv
  · intro hnone
    cases heq : reg.translatePrimitive r.id kind r.source r.path with
    | ok v => exact absurd ⟨v, heq⟩ hnone
    | error e => exact ⟨e, rfl, rejectedAt_of_translatePrimitive_eq_error heq⟩

/-- In an array only an item is at fault. -/
theorem rejects_array_iff {item : TypeId} (hshape : reg.shape r.id = .array item) :
    reg.Rejects limit r ↔ headOf r.source ≠ .arr := by
  by_cases harray : ∃ items, r.source = some (.arr items)
  · obtain ⟨items, hsource⟩ := harray
    rw [hsource]
    refine iff_of_false (not_rejects_iff.mpr fun e he => ?_) (fun hne => hne rfl)
    rw [answer_array hshape, hsource] at he
    rcases bind_eq_error_iff.mp he with he | ⟨values, -, he⟩
    · obtain ⟨x, -, hx⟩ := exists_of_mapM_eq_error he
      obtain ⟨place, keys, hplace, hkeys⟩ := extends_of_answer_eq_error hx
      have hbelow : place.keys = r.path.keys ++ .index x.2 :: keys := by
        rw [hkeys]
        show (r.path.keys ++ [.index x.2]) ++ keys = _
        rw [List.append_assoc]
        rfl
      exact TranslationError.rejectedAt_eq_false_of_keys hplace hbelow
    · cases he
  · have hhead : headOf r.source ≠ .arr := by
      intro hhead
      rw [headOf] at hhead
      cases hsource : r.source with
      | none =>
        rw [hsource] at hhead
        cases hhead
      | some value =>
        rw [hsource] at hhead harray
        cases value <;> first | exact harray ⟨_, rfl⟩ | cases hhead
    refine iff_of_true ⟨reg.mismatch r.id r.path r.source, ?_, rejectedAt_mismatch⟩ hhead
    rw [answer_array hshape]
    split
    · next items hsource => exact absurd ⟨items, hsource⟩ harray
    · rfl

/-- A nullable rejects what the type inside rejects, but for `null`. -/
theorem rejects_nullable_iff {inner : TypeId} (hshape : reg.shape r.id = .nullable inner) :
    reg.Rejects limit r ↔ headOf r.source ≠ .null ∧ reg.Rejects limit (r.as inner) := by
  have hanswer : reg.answer limit r = _ := answer_nullable hshape
  by_cases hnull : headOf r.source = .null
  · rw [if_pos (Json.all_isNull_iff_headOf.mpr hnull)] at hanswer
    exact iff_of_false (not_rejects_of_ok hanswer) fun h => h.1 hnull
  · rw [if_neg (mt Json.all_isNull_iff_headOf.mp hnull)] at hanswer
    rw [and_iff_right hnull]
    cases hinner : reg.answer limit (r.as inner) with
    | ok v =>
      rw [hinner] at hanswer
      exact iff_of_false (not_rejects_of_ok hanswer) (not_rejects_of_ok hinner)
    | error e =>
      rw [hinner] at hanswer
      dsimp only at hanswer
      by_cases hrej : e.rejectedAt r.path = true
      · rw [if_pos hrej] at hanswer
        exact iff_of_true ⟨_, hanswer, rejectedAt_mismatch⟩ ⟨e, hinner, hrej⟩
      · rw [if_neg hrej] at hanswer
        rw [Rejects, Rejects, hanswer, hinner]
        rfl

/-- A union rejects what all its alternatives reject. -/
theorem rejects_union_iff {alternatives : List TypeId}
    (hshape : reg.shape r.id = .union alternatives) :
    reg.Rejects limit r ↔ ∀ a ∈ alternatives, reg.Rejects limit (r.as a) := by
  rw [Rejects, answer_union hshape]
  rcases firstAccepted_cases r.path (reg.exhausted r.id r.path r.source)
    (fun a => reg.answer limit (r.as a)) alternatives with
    ⟨before, a, after, rfl, -, hfinal, heq⟩ | ⟨hall, heq⟩
  · rw [heq]
    refine iff_of_false ?_ fun hall => not_rejects_iff.mpr hfinal (hall a (by simp))
    exact not_rejects_iff.mpr hfinal
  · rw [heq]
    exact iff_of_true ⟨_, rfl, decide_eq_true rfl⟩ hall

/-- A product that asks for no further entries rejects what does not have its tag. -/
theorem rejects_product_iff {p : Product} (hshape : reg.shape r.id = .product p)
    (hliterals : p.source.literals = []) :
    reg.Rejects limit r ↔ headOf r.source ≠ .obj (some p.source.tag) := by
  constructor
  · rintro ⟨e, he, hrej⟩ hhead
    obtain ⟨record, hsource, htag⟩ := Json.exists_record_of_headOf hhead
    rcases of_answer_product_eq_error hshape he with hmatch | ⟨found, -, hbehind⟩
    · have hok : reg.matchRecord r.id p.source r.source r.path = .ok record :=
        matchRecord_eq_ok_iff.mpr ⟨hsource, htag, by simp [hliterals]⟩
      rw [hmatch] at hok
      cases hok
    · rcases hbehind with ⟨-, field, -, -, hfield⟩ | ⟨-, rfl⟩
      · obtain ⟨place, key, keys, hplace, hkeys⟩ := extends_of_answerField_eq_error hfield
        rw [TranslationError.rejectedAt_eq_false_of_keys hplace hkeys] at hrej
        cases hrej
      · cases hrej
  · intro hhead
    cases hmatch : reg.matchRecord r.id p.source r.source r.path with
    | error e =>
      refine ⟨e, ?_, rejectedAt_of_matchRecord_eq_error hmatch⟩
      rw [answer_product hshape, hmatch]
    | ok record =>
      obtain ⟨hsource, htag, -⟩ := matchRecord_eq_ok_iff.mp hmatch
      refine absurd ?_ hhead
      rw [hsource, ← htag]
      rfl

/-! ### Registries that go by heads -/

/-- Whether a type neither looks into a source before it is taken up nor asks for entries of a
record besides the tag. -/
def goesByHead (shape : Shape) : Bool :=
  match shape with
  | .product p => p.source.literals.isEmpty
  | .nameSet | .inspect _ => false
  | .primitive _ | .array _ | .nullable _ | .union _ => true

/-- Where no type looks further, sources with the same head are rejected alike. -/
theorem rejects_iff_of_head (h : ∀ id, goesByHead (reg.shape id) = true) :
    ∀ (r : Request) {source : Option Json}, headOf source = headOf r.source →
      (reg.Rejects limit (r.withSource source) ↔ reg.Rejects limit r) := by
  -- By induction on what a request leads to; only steps at the same source value count.
  refine request_induction reg limit ?_
  intro r ih source hhead
  have hnext : ∀ {next}, next ∈ (reg.shape r.id).samePath →
      (reg.Rejects limit ((r.withSource source).as next) ↔ reg.Rejects limit (r.as next)) :=
    fun hmem => ih _ (.samePath hmem) hhead
  have hid := h r.id
  cases hshape : reg.shape r.id with
  | primitive kind =>
    have haccepts : kind.accepts (source.getD .null) = kind.accepts (r.source.getD .null) :=
      Primitive.accepts_of_head hhead
    rw [rejects_primitive_iff (r := r.withSource source) hshape, rejects_primitive_iff hshape,
      ← haccepts]
    rfl
  | array item =>
    rw [rejects_array_iff (r := r.withSource source) hshape, rejects_array_iff hshape, ← hhead]
    rfl
  | nullable inner =>
    rw [hshape] at hnext
    rw [rejects_nullable_iff (r := r.withSource source) hshape, rejects_nullable_iff hshape,
      ← hhead, hnext List.mem_cons_self]
    rfl
  | union alternatives =>
    rw [hshape] at hnext
    rw [rejects_union_iff (r := r.withSource source) hshape, rejects_union_iff hshape]
    exact forall₂_congr fun a ha => hnext ha
  | product p =>
    rw [hshape] at hid
    have hliterals : p.source.literals = [] := List.isEmpty_iff.mp hid
    rw [rejects_product_iff (r := r.withSource source) hshape hliterals,
      rejects_product_iff hshape hliterals, ← hhead]
    rfl
  | nameSet =>
    rw [hshape] at hid
    cases hid
  | inspect i =>
    rw [hshape] at hid
    cases hid

end Registry

end TypedTree
