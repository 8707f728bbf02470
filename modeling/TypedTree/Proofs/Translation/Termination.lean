/-
Translation ends.

A recursion is a round, which gives the result at one place from the results at others. It ends
if from some number of rounds on the result does not hang on what the rounds began with. Main
statements:

* `ReachedBy`, `reachedBy_of_wellFounded` — a function is what its rounds come to, if each place
  asks finitely many others and asking ends;
* `Registry.translateRound`, `Registry.memberRound`, `Registry.tagRound` — the rounds of
  translation, of membership, and of the search for a tag among products;
* `Registry.leadsTo` — the requests that a round of translation asks, of which there are finitely
  many, whatever is extracted;
* `Builder.samePathOrder_iff_wellFounded` — the check for cycles is just what recursion needs;
* `Builder.terminates_of_freeze` — for every schema that can be frozen all three recursions end.

Design notes: the relations of a builder go by bodies alone, so nothing is promised by the
registry in them. That they are well-founded follows from the check, and from it that rounds come
to a result.
-/
import Mathlib.Order.WellFounded
import TypedTree.Proofs.Schema.Check
import TypedTree.Proofs.Schema.Cycles
import TypedTree.Proofs.Schema.Freeze
import TypedTree.Proofs.Translation.Request

namespace TypedTree

/-! ### Rounds -/

section

variable {α β : Type}

/-- A function is what its rounds come to: at every place, after so many rounds, whatever they
began with. -/
def ReachedBy (f : α → β) (round : (α → β) → α → β) : Prop :=
  ∀ x, ∃ rounds, ∀ n ≥ rounds, ∀ start : α → β, round^[n] start x = f x

/-- A bound for each item of a list is a bound for all of them. -/
theorem exists_rounds_of_forall_mem {P : Nat → α → Prop} {l : List α}
    (h : ∀ x ∈ l, ∃ rounds, ∀ n ≥ rounds, P n x) :
    ∃ rounds, ∀ n ≥ rounds, ∀ x ∈ l, P n x := by
  induction l with
  | nil => exact ⟨0, fun _ _ x hx => absurd hx List.not_mem_nil⟩
  | cons x l ih =>
    obtain ⟨hx, hl⟩ := List.forall_mem_cons.mp h
    obtain ⟨rounds, hrounds⟩ := hx
    obtain ⟨rounds', hrounds'⟩ := ih hl
    refine ⟨max rounds rounds', fun n hn => List.forall_mem_cons.mpr ⟨?_, ?_⟩⟩
    · exact hrounds n (le_trans (le_max_left _ _) hn)
    · exact hrounds' n (le_trans (le_max_right _ _) hn)

/-- Rounds come to a function if a round gives its result at a place as soon as it is given its
results at finitely many others, and this does not go on forever. -/
theorem reachedBy_of_wellFounded {below : α → α → Prop} (hwf : WellFounded below) {f : α → β}
    {round : (α → β) → α → β} (asks : α → List α) (hasks : ∀ x, ∀ y ∈ asks x, below y x)
    (hround : ∀ (self : α → β) (x : α), (∀ y ∈ asks x, self y = f y) → round self x = f x) :
    ReachedBy f round := by
  intro x
  induction x using hwf.induction with
  | _ x ih =>
    obtain ⟨rounds, hrounds⟩ := exists_rounds_of_forall_mem
      (P := fun n y => ∀ start : α → β, round^[n] start y = f y)
      fun y (hy : y ∈ asks x) => ih y (hasks x y hy)
    refine ⟨rounds + 1, fun n hn start => ?_⟩
    obtain ⟨m, rfl⟩ : ∃ m, n = m + 1 := ⟨n - 1, by omega⟩
    rw [Function.iterate_succ_apply']
    exact hround _ x fun y hy => hrounds m (by omega) y hy start

end

/-- The types that a type is made of: those of its fields, its items and its alternatives, and
those that it probes or chooses. -/
def Shape.parts : Shape → List TypeId
  | product p => p.fields.map (·.type)
  | array item => [item]
  | nullable inner => [inner]
  | union alternatives => alternatives
  | inspect i => i.probe :: i.arms.map (·.target)
  | primitive _ | nameSet => []

namespace Registry

variable {reg : Registry} {limit : Nat} {r r' : Request}

/-! ### Translation -/

/-- One round of translation: the answer to a request from the answers to others. -/
def translateRound (reg : Registry) (limit : Nat)
    (self : Request → Except TranslationError Value) (r : Request) :
    Except TranslationError Value :=
  match reg.shape r.id with
  | .primitive kind => reg.translatePrimitive r.id kind r.source r.path
  | .nameSet => reg.translateNames r.id r.source r.path
  | .array item =>
    match r.source with
    | some (.arr items) => do
      let values ← (stripRest items).zipIdx.mapM fun x => self (r.item item x.1 x.2)
      return .list values
    | _ => .error (reg.mismatch r.id r.path r.source)
  | .nullable inner =>
    if r.source.all Json.isNull then .ok .null
    else
      match self (r.as inner) with
      | .ok value => .ok value
      | .error e =>
        if e.rejectedAt r.path then .error (reg.mismatch r.id r.path r.source) else .error e
  | .union alternatives =>
    firstAccepted r.path (reg.exhausted r.id r.path r.source) (fun a => self (r.as a))
      alternatives
  | .product p =>
    match reg.matchRecord r.id p.source r.source r.path with
    | .error e => .error e
    | .ok record =>
      if r.depth < limit then do
        let slots ← p.fields.mapM fun field =>
          if field.isComputed then .ok none
          else
            some <$>
              match reg.readField field record r.path r.preset with
              | .settled result => result
              | .translate source path => self (r.part field.type source path)
        return reg.buildNode r.id p record slots
      else .error (.recursionLimit r.path)
  | .inspect i =>
    match reg.inspectable? i r.source with
    | none => .error (reg.mismatch r.id r.path r.source)
    | some record =>
      match self (r.probe i record) with
      | .error e => .error e
      | .ok probed =>
        match i.arms.find? (fun arm => reg.isInstance arm.test probed) with
        | none => .error (reg.mismatch r.id r.path r.source)
        | some arm => self (r.handing arm.target ⟨i.field, probed⟩)

/-- The requests that a round asks: all items, all alternatives, all fields that are read from
the source, and the probe with all targets, which are handed the probed value. -/
def leadsTo (reg : Registry) (limit : Nat) (r : Request) : List Request :=
  match reg.shape r.id with
  | .primitive _ | .nameSet => []
  | .array item =>
    match r.source with
    | some (.arr items) => (stripRest items).zipIdx.map fun x => r.item item x.1 x.2
    | _ => []
  | .nullable inner => [r.as inner]
  | .union alternatives => alternatives.map r.as
  | .product p =>
    match reg.matchRecord r.id p.source r.source r.path with
    | .error _ => []
    | .ok record =>
      if r.depth < limit then
        p.fields.filterMap fun field =>
          match reg.readField field record r.path r.preset with
          | .settled _ => none
          | .translate source path => some (r.part field.type source path)
      else []
  | .inspect i =>
    match reg.inspectable? i r.source with
    | none => []
    | some record =>
      r.probe i record ::
        match reg.answer limit (r.probe i record) with
        | .error _ => []
        | .ok probed => i.arms.map fun arm => r.handing arm.target ⟨i.field, probed⟩

/-- A round asks for parts of the type at hand. -/
theorem of_mem_leadsTo (h : r' ∈ reg.leadsTo limit r) :
    Calls reg limit r r' ∧ r'.id ∈ (reg.shape r.id).parts := by
  -- One case for each line of `leadsTo`; those that ask for nothing are closed at once.
  unfold leadsTo at h
  split at h
  · cases h
  · cases h
  · next item hshape =>
    split at h
    · next items hsource =>
      obtain ⟨⟨v, i⟩, hmem, rfl⟩ := List.mem_map.mp h
      rw [hshape]
      exact ⟨.item hshape hsource hmem, List.mem_cons_self⟩
    · cases h
  · next inner hshape =>
    obtain rfl := List.mem_singleton.mp h
    exact ⟨.samePath (by simp [hshape, Shape.samePath]), by rw [hshape]; exact List.mem_cons_self⟩
  · next alternatives hshape =>
    obtain ⟨a, ha, rfl⟩ := List.mem_map.mp h
    exact ⟨.samePath (by simpa [hshape, Shape.samePath] using ha), by rw [hshape]; exact ha⟩
  · next p hshape =>
    split at h
    · cases h
    · split at h
      · next hdepth =>
        obtain ⟨field, hmem, hfield⟩ := List.mem_filterMap.mp h
        split at hfield
        · cases hfield
        · cases hfield
          rw [hshape]
          exact ⟨.field hdepth, List.mem_map_of_mem hmem⟩
      · cases h
  · next i hshape =>
    split at h
    · cases h
    · next record hrecord =>
      rcases List.mem_cons.mp h with rfl | h
      · rw [hshape]
        exact ⟨.probe hshape hrecord, List.mem_cons_self⟩
      · split at h
        · cases h
        · obtain ⟨arm, harm, rfl⟩ := List.mem_map.mp h
          have hmem : arm.target ∈ i.arms.map (·.target) := List.mem_map_of_mem harm
          rw [hshape]
          exact ⟨.target (by rwa [hshape]), List.mem_cons_of_mem _ hmem⟩

/-- A round that is given the answers to all requests it asks gives the answer. -/
theorem translateRound_eq_answer {self : Request → Except TranslationError Value}
    (h : ∀ r' ∈ reg.leadsTo limit r, self r' = reg.answer limit r') :
    reg.translateRound limit self r = reg.answer limit r := by
  unfold leadsTo at h
  unfold translateRound
  -- Shape by shape: where the round asks, `h` has the answer; where it does not, both sides are the
  -- same.
  cases hshape : reg.shape r.id with
  | primitive kind => exact (answer_primitive hshape).symm
  | nameSet => exact (answer_nameSet hshape).symm
  | array item =>
    rw [hshape] at h
    rw [answer_array hshape]
    dsimp only at h ⊢
    generalize r.source = source at h ⊢
    rcases source with _ | (_ | _ | _ | _ | items | _)
    case some.arr =>
      have hitems : ∀ x ∈ (stripRest items).zipIdx,
          self (r.item item x.1 x.2) = reg.answer limit (r.item item x.1 x.2) :=
        fun x hx => h _ (List.mem_map_of_mem hx)
      exact congrArg (· >>= fun values => pure (Value.list values)) (mapM_congr_of_mem hitems)
    all_goals rfl
  | nullable inner =>
    rw [hshape] at h
    have hinner : self (r.as inner) = reg.answer limit (r.as inner) := h _ List.mem_cons_self
    dsimp only
    rw [hinner]
    exact (answer_nullable hshape).symm
  | union alternatives =>
    rw [hshape] at h
    rw [answer_union hshape]
    exact firstAccepted_congr_of_mem fun a ha => h _ (List.mem_map_of_mem ha)
  | product p =>
    rw [hshape] at h
    rw [answer_product hshape]
    dsimp only at h ⊢
    cases hrecord : reg.matchRecord r.id p.source r.source r.path with
    | error e => rfl
    | ok record =>
      rw [hrecord] at h
      dsimp only at h ⊢
      -- Past the limit no field is asked for, so `h` says nothing there.
      by_cases hdepth : r.depth < limit
      · rw [if_pos hdepth] at h
        rw [if_pos hdepth, if_pos hdepth]
        refine congrArg (· >>= fun slots => pure (reg.buildNode r.id p record slots))
          (mapM_congr_of_mem fun field hfield => ?_)
        rw [answerField]
        cases hread : reg.readField field record r.path r.preset with
        | settled result => rfl
        | translate source path =>
          dsimp only
          rw [h _ (List.mem_filterMap.mpr ⟨field, hfield, by rw [hread]⟩)]
      · rw [if_neg hdepth, if_neg hdepth]
  | inspect i =>
    rw [hshape] at h
    rw [answer_inspect hshape]
    dsimp only at h ⊢
    cases hrecord : reg.inspectable? i r.source with
    | none => rfl
    | some record =>
      rw [hrecord] at h
      dsimp only at h ⊢
      obtain ⟨hprobe, htargets⟩ := List.forall_mem_cons.mp h
      rw [hprobe]
      cases hprobed : reg.answer limit (r.probe i record) with
      | error e => rfl
      | ok probed =>
        rw [hprobed] at htargets
        dsimp only at htargets ⊢
        cases harm : i.arms.find? (fun arm => reg.isInstance arm.test probed) with
        | none => rfl
        | some arm => exact htargets _ (List.mem_map_of_mem (List.mem_of_find?_eq_some harm))

theorem reachedBy_translateRound (reg : Registry) (limit : Nat) :
    ReachedBy (reg.answer limit) (reg.translateRound limit) :=
  reachedBy_of_wellFounded (wellFounded_recurs_iff.mpr (wellFounded_follows reg))
    (reg.leadsTo limit) (fun _ _ hr => (of_mem_leadsTo hr).1.recurs)
    fun _ _ => translateRound_eq_answer

/-! ### Membership -/

/-- Whether a value belongs to a type may be asked of its items, or of other types. -/
inductive Tests (shape : TypeId → Shape) : TypeId × Value → TypeId × Value → Prop
  | item {id item : TypeId} {items : List Value} {v : Value} (body : shape id = .array item)
      (mem : v ∈ items) : Tests shape (id, .list items) (item, v)
  | samePath {id next : TypeId} {v : Value} (mem : next ∈ (shape id).samePath) :
      Tests shape (id, v) (next, v)

theorem wellFounded_tests_iff {shape : TypeId → Shape} :
    (WellFounded fun x' x => Tests shape x x') ↔ WellFounded (Follows shape) := by
  constructor
  · intro hwf
    refine Subrelation.wf ?_ (InvImage.wf (fun id => (id, Value.null)) hwf)
    exact fun hnext => Tests.samePath hnext
  · intro hwf
    -- Items are smaller than their list, and other types are asked about the same value.
    refine Subrelation.wf ?_ (InvImage.wf (fun x : TypeId × Value => (sizeOf x.2, x.1))
      (WellFounded.prod_lex Nat.lt_wfRel.wf hwf))
    intro x' x h
    cases h with
    | @item id item items v body mem =>
      refine Prod.Lex.left _ _ ?_
      have hlt := List.sizeOf_lt_of_mem mem
      show sizeOf v < sizeOf (Value.list items)
      simp only [Value.list.sizeOf_spec]
      omega
    | samePath mem => exact Prod.Lex.right _ mem

/-- One round of membership. -/
def memberRound (reg : Registry) (self : TypeId × Value → Bool) (x : TypeId × Value) : Bool :=
  match reg.shape x.1 with
  | .primitive kind => kind.holds x.2
  | .array item =>
    match x.2 with
    | .list items => items.all fun v => self (item, v)
    | _ => false
  | .nullable inner => x.2.isNull || self (inner, x.2)
  | .nameSet => x.2.asNames?.isSome
  | .product _ => (x.2.asNode?.map (·.id)) == some x.1
  | .union alternatives => alternatives.any fun alt => self (alt, x.2)
  | .inspect i => i.arms.any fun arm => self (arm.target, x.2)

/-- What a round of membership asks. -/
def tested (reg : Registry) (x : TypeId × Value) : List (TypeId × Value) :=
  match reg.shape x.1, x.2 with
  | .array item, .list items => items.map fun v => (item, v)
  | shape, v => shape.samePath.map fun next => (next, v)

theorem tests_of_mem_tested {x x' : TypeId × Value} (h : x' ∈ reg.tested x) :
    Tests reg.shape x x' := by
  obtain ⟨id, v⟩ := x
  unfold tested at h
  split at h
  · next item items hshape hitems =>
    obtain ⟨v', hv, rfl⟩ := List.mem_map.mp h
    cases hitems
    exact .item hshape hv
  · obtain ⟨next, hnext, rfl⟩ := List.mem_map.mp h
    exact .samePath hnext

theorem memberRound_eq_isInstance {self : TypeId × Value → Bool} {x : TypeId × Value}
    (h : ∀ x' ∈ reg.tested x, self x' = reg.isInstance x'.1 x'.2) :
    reg.memberRound self x = reg.isInstance x.1 x.2 := by
  obtain ⟨id, v⟩ := x
  unfold tested at h
  rw [isInstance_eq, memberRound]
  cases hshape : reg.shape id with
  | primitive | nameSet | product => rfl
  | array item =>
    rw [hshape] at h
    cases v with
    | list items =>
      have hitems : ∀ v ∈ items, self (item, v) = reg.isInstance item v :=
        fun v hv => h _ (List.mem_map_of_mem hv)
      exact all_congr_of_mem hitems
    | null | bool | number | string | any | names | node => rfl
  | nullable inner =>
    rw [hshape] at h
    have hinner : self (inner, v) = reg.isInstance inner v := h _ List.mem_cons_self
    dsimp only
    rw [hinner]
  | union alternatives =>
    rw [hshape] at h
    exact any_congr_of_mem fun a ha => h (a, v) (List.mem_map_of_mem ha)
  | inspect i =>
    rw [hshape] at h
    have harms : ∀ arm ∈ i.arms, self (arm.target, v) = reg.isInstance arm.target v :=
      fun arm harm => h _ (List.mem_map_of_mem (List.mem_map_of_mem harm))
    exact any_congr_of_mem harms

theorem reachedBy_memberRound (reg : Registry) :
    ReachedBy (fun x => reg.isInstance x.1 x.2) reg.memberRound :=
  reachedBy_of_wellFounded (wellFounded_tests_iff.mpr (wellFounded_follows reg)) reg.tested
    (fun _ _ hx => tests_of_mem_tested hx) fun _ _ => memberRound_eq_isInstance

/-! ### Tags of products -/

/-- One round of the search for a tag among the products at the same source value. -/
def tagRound (reg : Registry) (tag : String) (self : TypeId → Bool) (id : TypeId) : Bool :=
  (match (reg.shape id).asProduct? with
    | some p => p.source.tag == tag
    | none => false) ||
  (reg.shape id).samePath.any self

theorem reachedBy_tagRound (reg : Registry) (tag : String) :
    ReachedBy (reg.buildsFrom tag) (reg.tagRound tag) := by
  refine reachedBy_of_wellFounded (wellFounded_follows reg) (fun id => (reg.shape id).samePath)
    (fun _ _ hnext => hnext) fun self id h => ?_
  rw [tagRound, any_congr_of_mem h]
  exact (buildsFrom_eq reg tag id).symm

end Registry

/-! ### Schemas that can be frozen -/

namespace Builder

open Registry (Recurs Follows Tests wellFounded_recurs_iff wellFounded_tests_iff)
open Relation (TransGen)

variable {b : Builder} {reg : Registry} {types : List Defined}

/-- The body of a type; a handle without one has the union without alternatives. -/
def shapeOf (b : Builder) (id : TypeId) : Shape := (b.body? id).getD (.union [])

theorem samePath_shapeOf (b : Builder) (id : TypeId) : (b.shapeOf id).samePath = b.samePath id := by
  rw [shapeOf, samePath]
  cases b.body? id <;> rfl

/-- The check for cycles is just what recursion needs. -/
theorem samePathOrder_iff_wellFounded
    (htypes : b.declarations.mapM Declaration.defined = .ok types) :
    (∃ order, samePathOrder types = .ok order) ↔ WellFounded (Follows b.shapeOf) := by
  constructor
  · rintro ⟨order, horder⟩
    obtain ⟨rank, hrank⟩ := rank_of_samePathOrder horder
    refine Subrelation.wf ?_ (InvImage.wf rank Nat.lt_wfRel.wf)
    intro next id hnext
    rw [Follows, samePath_shapeOf] at hnext
    refine hrank id next ?_
    rwa [samePathAt_of_defined htypes]
  · intro hwf
    refine (samePathOrder_eq_ok_iff htypes).mpr fun id hcycle => ?_
    have hleads : TransGen (Follows b.shapeOf) id id := by
      refine Relation.transGen_swap.mp (Relation.TransGen.mono (fun u w hw => ?_) _ _ hcycle)
      show w ∈ (b.shapeOf u).samePath
      rwa [samePath_shapeOf]
    exact hwf.transGen.irrefl.irrefl id hleads

theorem wellFounded_follows_of_freeze (h : b.freeze = .ok reg) :
    WellFounded (Follows b.shapeOf) := by
  obtain ⟨types, hprep, -⟩ := prepares_of_freeze_eq_ok h
  exact (samePathOrder_iff_wellFounded hprep.1).mp hprep.2.2

/-- Where a schema can be frozen, translation ends for every source and at every limit, and so
do membership and the search for a tag: none of them recurs without end, and so many rounds give
the result. -/
theorem terminates_of_freeze (h : b.freeze = .ok reg) (limit : Nat) :
    (WellFounded (fun r' r => Recurs b.shapeOf limit r r') ∧
      WellFounded (fun x' x => Tests b.shapeOf x x') ∧ WellFounded (Follows b.shapeOf)) ∧
    (∀ (id : TypeId) (source : Json), reg.contains id = true →
      ∃ rounds, ∀ n ≥ rounds, ∀ start : Request → Except TranslationError Value,
        (reg.translateRound limit)^[n] start (.whole id source) =
          reg.translate limit id source) ∧
    ReachedBy (reg.answer limit) (reg.translateRound limit) ∧
    ReachedBy (fun x => reg.isInstance x.1 x.2) reg.memberRound ∧
    ∀ tag, ReachedBy (reg.buildsFrom tag) (reg.tagRound tag) := by
  have hwf : WellFounded (Follows b.shapeOf) := wellFounded_follows_of_freeze h
  refine ⟨⟨wellFounded_recurs_iff.mpr hwf, wellFounded_tests_iff.mpr hwf, hwf⟩, ?_,
    Registry.reachedBy_translateRound reg limit, Registry.reachedBy_memberRound reg,
    Registry.reachedBy_tagRound reg⟩
  intro id source hid
  rw [Registry.translate_eq, if_pos hid]
  exact Registry.reachedBy_translateRound reg limit (.whole id source)

/-- A schema with one type, whose field is read from a record around the record itself. -/
def growing : Builder :=
  (Builder.product "T" {
    source := { tag := "T" }
    fields := [(Field.required "more" ⟨0⟩).extracted
      (.custom ["type"] fun record => .obj [("type", .str "T"), ("of", .obj record)])] } {}).2

theorem terminates_of_freeze_growing : ∃ reg, growing.freeze = .ok reg ∧
    ∃ rounds, ∀ n ≥ rounds, ∀ start : Request → Except TranslationError Value,
      (reg.translateRound 256)^[n] start (.whole ⟨0⟩ (.obj [("type", .str "T")])) =
        reg.translate 256 ⟨0⟩ (.obj [("type", .str "T")]) := by
  obtain ⟨reg, hreg, hid⟩ : ∃ reg, growing.freeze = .ok reg ∧ reg.contains ⟨0⟩ = true :=
    exists_of_check (by decide +kernel)
  exact ⟨reg, hreg, (terminates_of_freeze hreg 256).2.1 ⟨0⟩ _ hid⟩

end Builder

end TypedTree
