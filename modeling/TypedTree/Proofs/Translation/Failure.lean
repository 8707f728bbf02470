/-
Where a failure comes from.

A failure is raised by one request of a run, and those before it pass it on. Main statements:

* `Registry.Raises` — the failures that a request may raise itself;
* `Registry.raises_or_exists_asks` — a failure is raised by the request that it answers, or it
  is that of a request one step further;
* `Registry.exists_raises` — a failure is raised in the run.

Design notes: nullables and unions put a failure of their own in the place of a rejection at
their own path. That counts as raised by them, so what is passed on is passed on unchanged.
-/
import TypedTree.Proofs.Translation.Run

namespace TypedTree

/-- The summary of a translated value: a node by the name of its type, and anything else as it
is written back. -/
def Found.ofValue (v : Value) : Found :=
  match v.asNode? with
  | some n => node n.typeName
  | none => value (v.toJson false)

namespace Registry

variable {reg : Registry} {limit : Nat} {r s t root : Request} {e : TranslationError}

/-! ### Failures of their own -/

/-- The failures that a request may raise itself: the source is not what its type asks for; no
alternative takes it; an entry that a product asks for is missing or different; an item of a
set of names is no string; what stands ready does not fit the field that reads its key; there
is no room for another node. -/
inductive Raises (reg : Registry) (limit : Nat) (r : Request) : TranslationError → Prop
  | mismatch : Raises reg limit r (reg.mismatch r.id r.path r.source)
  | exhausted : Raises reg limit r (reg.exhausted r.id r.path r.source)
  | literal {p : Product} {record : Json.Record} {key : String} {literal : Json}
      (shape : reg.shape r.id = .product p) (source : r.source = some (.obj record))
      (mem : (key, literal) ∈ p.source.literals)
      (unmet : ∀ value, record.get? key = some value → value.same literal = false) :
      Raises reg limit r
        (.rejected ⟨.mismatch, .literal literal, r.path, .of (record.get? key)⟩)
  | item {items : List Json} {item : Json} {i : Nat} (source : r.source = some (.arr items))
      (mem : items[i]? = some item) : Raises reg limit r
        (.rejected ⟨.mismatch, .type Primitive.string.name, r.path.index i, .of (some item)⟩)
  | preset {p : Product} {record : Json.Record} {field : Field} {ready : Preset}
      (shape : reg.shape r.id = .product p) (source : r.source = some (.obj record))
      (mem : field ∈ p.fields) (supplied : field.isComputed = false)
      (preset : r.preset = some ready) (key : field.source = .key ready.key)
      (misfit : reg.isInstance field.type ready.value = false) : Raises reg limit r
        (.rejected ⟨.mismatch, .type (reg.name field.type), r.path.field ready.key,
          .ofValue ready.value⟩)
  | limit {record : Json.Record} (source : r.source = some (.obj record))
      (beyond : limit ≤ r.depth) : Raises reg limit r (.recursionLimit r.path)

theorem takePreset_eq_error_iff {type : TypeId} {value : Value} {path : Path} :
    reg.takePreset type value path = .error e ↔ reg.isInstance type value = false ∧
      e = .rejected ⟨.mismatch, .type (reg.name type), path, .ofValue value⟩ := by
  rw [takePreset]
  cases hinst : reg.isInstance type value with
  | true => simp
  | false =>
    rw [if_neg Bool.false_ne_true, Found.ofValue]
    constructor
    · intro h
      cases h
      exact ⟨rfl, rfl⟩
    · rintro ⟨-, rfl⟩
      rfl

theorem raises_of_translatePrimitive {kind : Primitive}
    (h : reg.translatePrimitive r.id kind r.source r.path = .error e) :
    reg.Raises limit r e := by
  rw [eq_mismatch_of_translatePrimitive_eq_error h]
  exact .mismatch

theorem exists_of_collectNames_eq_error {path : Path} : ∀ {items : List Json} {position : Nat}
    {set : NameSet}, collectNames path items position set = .error e →
    ∃ i item, items[i]? = some item ∧ e = .rejected
      ⟨.mismatch, .type Primitive.string.name, path.index (position + i), .of (some item)⟩ := by
  intro items
  induction items with
  | nil =>
    intro position set h
    cases h
  | cons item rest ih =>
    intro position set h
    rw [collectNames] at h
    split at h
    · obtain ⟨i, item', hmem, rfl⟩ := ih h
      exact ⟨i + 1, item', hmem, by rw [Nat.add_right_comm, Nat.add_assoc]⟩
    · cases h
      exact ⟨0, item, rfl, rfl⟩

theorem raises_of_translateNames (h : reg.translateNames r.id r.source r.path = .error e) :
    reg.Raises limit r e := by
  unfold translateNames at h
  split at h
  · next items hsource =>
    cases hset : collectNames r.path items 0 .empty with
    | ok set =>
      rw [hset] at h
      cases h
    | error e' =>
      rw [hset] at h
      cases h
      obtain ⟨i, item, hmem, rfl⟩ := exists_of_collectNames_eq_error hset
      rw [Nat.zero_add]
      exact .item hsource hmem
  · cases h
    exact .mismatch

/-- The first entry that is not met is one that is asked for. -/
theorem of_firstUnmet?_eq_some {record : Json.Record} {key : String} {literal : Json} :
    ∀ {literals : List (String × Json)}, firstUnmet? record literals = some (key, literal) →
      (key, literal) ∈ literals ∧ ∀ value, record.get? key = some value →
        value.same literal = false := by
  intro literals
  induction literals with
  | nil =>
    intro h
    cases h
  | cons entry rest ih =>
    intro h
    obtain ⟨k, l⟩ := entry
    rw [firstUnmet?] at h
    split at h
    · next value hget =>
      split at h
      · obtain ⟨hmem, hunmet⟩ := ih h
        exact ⟨List.mem_cons_of_mem _ hmem, hunmet⟩
      · next hsame =>
        cases h
        refine ⟨List.mem_cons_self, fun value' hget' => ?_⟩
        rw [hget] at hget'
        cases hget'
        simpa using hsame
    · next hget =>
      cases h
      refine ⟨List.mem_cons_self, fun value' hget' => ?_⟩
      rw [hget] at hget'
      cases hget'

theorem raises_of_matchRecord {p : Product} (hshape : reg.shape r.id = .product p)
    (h : reg.matchRecord r.id p.source r.source r.path = .error e) : reg.Raises limit r e := by
  unfold matchRecord at h
  split at h
  · next record hsource =>
    split at h
    · split at h
      · cases h
      · next hunmet =>
        cases h
        obtain ⟨hmem, hunmet⟩ := of_firstUnmet?_eq_some hunmet
        exact .literal hshape hsource hmem hunmet
    · cases h
      exact .mismatch
  · cases h
    exact .mismatch

/-- A field fails on what stands ready, or in a translation of its own. -/
theorem of_answerField_eq_error {record : Json.Record} {field : Field}
    (h : reg.answerField limit r record field = .error e) :
    (∃ ready, r.preset = some ready ∧ field.source = .key ready.key ∧
        reg.isInstance field.type ready.value = false ∧ e = .rejected ⟨.mismatch,
          .type (reg.name field.type), r.path.field ready.key, .ofValue ready.value⟩) ∨
      ∃ source path, reg.readField field record r.path r.preset = .translate source path ∧
        reg.answer limit (r.part field.type source path) = .error e := by
  rw [answerField] at h
  rcases readField_cases reg field record r.path r.preset with
    ⟨ready, hready, hkey, heq⟩ | ⟨d, -, -, heq⟩ | heq
  · rw [heq] at h
    exact .inl ⟨ready, hready, hkey, takePreset_eq_error_iff.mp h⟩
  · rw [heq] at h
    cases h
  · rw [heq] at h
    exact .inr ⟨_, _, heq, h⟩

/-! ### Failures of a run -/

theorem Asks.calls (h : reg.Asks limit r s) : Calls reg limit r s := by
  cases h with
  | settles step => exact step.calls
  | item shape source mem => exact .item shape source mem
  | probe shape source => exact .probe shape source
  | field shape matching within mem supplied reading => exact .field within

/-- A failure is raised by the request that it answers, or it is that of a request one step
further. -/
theorem raises_or_exists_asks (h : reg.answer limit r = .error e) :
    reg.Raises limit r e ∨ ∃ s, reg.Asks limit r s ∧ reg.answer limit s = .error e := by
  -- A shape raises its own mismatch; every other failure is handed on by the part that it came
  -- from.
  cases hshape : reg.shape r.id with
  | primitive kind =>
    rw [answer_primitive hshape] at h
    exact .inl (raises_of_translatePrimitive h)
  | nameSet =>
    rw [answer_nameSet hshape] at h
    exact .inl (raises_of_translateNames h)
  | array item =>
    rw [answer_array hshape] at h
    split at h
    · next items hsource =>
      -- Putting the values together cannot fail, so an item has.
      rcases bind_eq_error_iff.mp h with hitems | ⟨values, -, hvalues⟩
      · obtain ⟨x, hx, hfail⟩ := exists_of_mapM_eq_error hitems
        exact .inr ⟨_, .item hshape hsource hx, hfail⟩
      · cases hvalues
    · cases h
      exact .inl .mismatch
  | nullable inner =>
    rw [answer_nullable hshape] at h
    split at h
    · cases h
    · next hpresent =>
      split at h
      · cases h
      · next e' hinner =>
        split at h
        · cases h
          exact .inl .mismatch
        · cases h
          exact .inr ⟨_, .settles (.inl (.inner hshape (by simpa using hpresent))), hinner⟩
  | union alternatives =>
    rw [answer_union hshape] at h
    rcases firstAccepted_cases r.path (reg.exhausted r.id r.path r.source)
      (fun a => reg.answer limit (r.as a)) alternatives with
      ⟨before, a, after, rfl, hbefore, -, heq⟩ | ⟨-, heq⟩
    · exact .inr ⟨_, .settles (.inl (.alternative hshape hbefore)), heq.symm.trans h⟩
    · rw [heq] at h
      cases h
      exact .inl .exhausted
  | product p =>
    rcases of_answer_product_eq_error hshape h with hmatch | ⟨record, hmatch, hbehind⟩
    · exact .inl (raises_of_matchRecord hshape hmatch)
    · rcases hbehind with ⟨hwithin, field, hmem, hcomp, hfail⟩ | ⟨hbeyond, rfl⟩
      · rcases of_answerField_eq_error hfail with
          ⟨ready, hready, hkey, hmisfit, rfl⟩ | ⟨source, path, hreading, hpart⟩
        · exact .inl (.preset hshape (matchRecord_eq_ok_iff.mp hmatch).1 hmem hcomp hready hkey
            hmisfit)
        · exact .inr ⟨_, .field hshape hmatch hwithin hmem hcomp hreading, hpart⟩
      · exact .inl (.limit (matchRecord_eq_ok_iff.mp hmatch).1 hbeyond)
  | inspect i =>
    rw [answer_inspect hshape] at h
    split at h
    · cases h
      exact .inl .mismatch
    · next record hrecord =>
      split at h
      · next e' hprobe =>
        cases h
        exact .inr ⟨_, .probe hshape hrecord, hprobe⟩
      · next probed hprobe =>
        split at h
        · cases h
          exact .inl .mismatch
        · next arm harm =>
          exact .inr ⟨_, .settles (.inr ⟨i, probed, .target hshape hrecord hprobe harm⟩), h⟩

/-- A failure is raised in the run. -/
theorem exists_raises : ∀ (r : Request) {e : TranslationError}, reg.answer limit r = .error e →
    ∃ s, reg.Reaches limit r s ∧ reg.Raises limit s e := by
  refine request_induction reg limit ?_
  intro r ih e he
  rcases raises_or_exists_asks he with hraises | ⟨next, hstep, hnext⟩
  · exact ⟨r, .refl, hraises⟩
  · obtain ⟨s, hrun, hraises⟩ := ih next hstep.calls hnext
    exact ⟨s, .head hstep hrun, hraises⟩

end Registry

end TypedTree
