/-
Unions that tell records apart.

Through unions and nullables a type comes to products and inspect shapes, each of which takes or
leaves a record as a whole. Main statements:

* `Registry.Comes` — a type comes to another one in this way;
* `Registry.Suits` — a record has what a product asks for, or the tag of a target of an inspect
  shape;
* `Registry.resolved_of_answer` — an answer that is no rejection at the path itself is that of a
  product or an inspect shape which the record suits;
* `Registry.Discriminates` — a type comes to nothing else, and no record suits two of them;
* `Registry.Discriminates.existsUnique_takenBy` — then a record that is taken at all is taken by
  one of them alone;
* `Registry.Discriminates.decisive` — then the order of alternatives does not matter;
* `Registry.discriminatesWithin` — a check that can be run.

Design notes: an inspect shape looks into every record with the tag of a target, and its probe may
fail there, so it competes for all of them, not only for those that a target takes.
-/
import TypedTree.Proofs.Translation.Arrangement
import TypedTree.Proofs.Translation.Commit

namespace TypedTree

/-! ### Source patterns -/

/-- Two patterns ask for different tags, or for different truth values under one key. -/
def SourcePattern.conflicts (p q : SourcePattern) : Bool :=
  p.tag != q.tag ||
    p.literals.any fun a => q.literals.any fun b =>
      a.1 == b.1 &&
        match a.2, b.2 with
        | .bool x, .bool y => x != y
        | _, _ => false

theorem Json.eq_bool_of_same {value : Json} {x : Bool} (h : value.same (.bool x) = true) :
    value = .bool x := by
  cases value with
  | bool y => rw [beq_iff_eq.mp (by simpa [Json.same] using h : (y == x) = true)]
  | null | num | str | arr | obj => simp [Json.same] at h

theorem SourcePattern.conflicts.not_admits {p q : SourcePattern} {record : Json.Record}
    (h : p.conflicts q = true) (hp : p.Admits record) : ¬ q.Admits record := by
  intro hq
  rcases Bool.or_eq_true_iff.mp h with htag | hliteral
  · have heq : p.tag = q.tag := Option.some.inj (hp.1.symm.trans hq.1)
    rw [heq] at htag
    simp at htag
  · obtain ⟨a, ha, hliteral⟩ := List.any_eq_true.mp hliteral
    obtain ⟨b, hb, hliteral⟩ := List.any_eq_true.mp hliteral
    obtain ⟨hkey, hdiffer⟩ := Bool.and_eq_true_iff.mp hliteral
    obtain ⟨v, hv, hsame⟩ := hp.2 a ha
    obtain ⟨w, hw, hsame'⟩ := hq.2 b hb
    rw [beq_iff_eq.mp hkey, hw] at hv
    cases hv
    split at hdiffer
    · next x y hx hy =>
      rw [hx] at hsame
      rw [hy] at hsame'
      have heq : (Json.bool x) = .bool y :=
        (Json.eq_bool_of_same hsame).symm.trans (Json.eq_bool_of_same hsame')
      cases heq
      simp at hdiffer
    · cases hdiffer

/-! ### Products and inspect shapes -/

/-- The types that get the source value of a type as it is, with nothing looked up in it. -/
def Shape.options : Shape → List TypeId
  | union alternatives => alternatives
  | nullable inner => [inner]
  | primitive _ | array _ | nameSet | product _ | inspect _ => []

/-- A product or an inspect shape, which takes or leaves a record as a whole. -/
def Shape.isUnit : Shape → Bool
  | product _ | inspect _ => true
  | primitive _ | array _ | nullable _ | nameSet | union _ => false

namespace Registry

variable {reg : Registry} {limit : Nat} {record : Json.Record} {id u w : TypeId}

/-- A type comes to another one through unions and nullables alone. -/
def Comes (reg : Registry) : TypeId → TypeId → Prop := Graph.Leads fun id => (reg.shape id).options

theorem mem_samePath_of_mem_options {next : TypeId} (h : next ∈ (reg.shape id).options) :
    next ∈ (reg.shape id).samePath := by
  cases hshape : reg.shape id with
  | union | nullable => rwa [hshape] at h
  | primitive | array | nameSet | product | inspect =>
    rw [hshape] at h
    cases h

/-- A record suits a product if it has what the pattern asks for, and an inspect shape if it has
the tag of a target. -/
inductive Suits (reg : Registry) (record : Json.Record) (u : TypeId) : Prop
  | product {p : Product} (shape : reg.shape u = .product p) (admits : p.source.Admits record)
  | inspect {i : Inspect} {arm : Arm} {tag : String} (shape : reg.shape u = .inspect i)
      (tagged : record.tag? = some tag) (mem : arm ∈ i.arms)
      (builds : reg.buildsFrom tag arm.target = true)

theorem buildsFrom_of_samePath {last : TypeId} {p : Product} (h : reg.SamePath id last)
    (hshape : reg.shape last = .product p) : reg.buildsFrom p.source.tag id = true := by
  induction h with
  | refl =>
    rw [buildsFrom_eq, hshape]
    simp [Shape.asProduct?]
  | step mem _ ih =>
    rw [buildsFrom_eq, Bool.or_eq_true_iff]
    exact .inr (List.any_eq_true.mpr ⟨_, mem, ih hshape⟩)

/-- A record that a product at the same place takes suits the inspect shape that leads there. -/
theorem Reads.suits (h : reg.Reads u record) (hunit : (reg.shape u).isUnit = true) :
    reg.Suits record u := by
  obtain ⟨last, p, hlast, hproduct, hadmits⟩ := h
  cases hlast with
  | refl => exact .product hproduct hadmits
  | @step _ next _ mem rest =>
    cases hshape : reg.shape u with
    | product =>
      rw [hshape] at mem
      cases mem
    | inspect i =>
      rw [hshape] at mem
      obtain ⟨arm, harm, rfl⟩ := List.mem_map.mp mem
      exact .inspect hshape hadmits.1 harm (buildsFrom_of_samePath rest hproduct)
    | primitive | array | nullable | nameSet | union =>
      rw [hshape] at hunit
      cases hunit

/-- A record is taken by a product or an inspect shape to which a type comes. -/
structure TakenBy (reg : Registry) (id : TypeId) (record : Json.Record) (u : TypeId) : Prop where
  comes : reg.Comes id u
  unit : (reg.shape u).isUnit = true
  reads : reg.Reads u record

/-- Every product at the same place is reached through one of them. -/
theorem Reads.exists_takenBy (h : reg.Reads id record) : ∃ u, reg.TakenBy id record u := by
  obtain ⟨last, p, hlast, hproduct, hadmits⟩ := h
  induction hlast with
  | refl id => exact ⟨id, .refl, by rw [hproduct]; rfl, id, p, .refl id, hproduct, hadmits⟩
  | @step id next last mem rest ih =>
    have hnext : next ∈ (reg.shape id).options → ∃ u, reg.TakenBy id record u := by
      intro hnext
      obtain ⟨u, hcomes, hunit, hreads⟩ := ih hproduct
      exact ⟨u, .head hnext hcomes, hunit, hreads⟩
    cases hshape : reg.shape id with
    | inspect i =>
      exact ⟨id, .refl, by rw [hshape]; rfl, last, p, .step mem rest, hproduct, hadmits⟩
    | union | nullable =>
      rw [hshape] at mem hnext
      exact hnext mem
    | primitive | array | nameSet | product =>
      rw [hshape] at mem
      cases mem

/-! ### Answers -/

/-- A type comes to products and inspect shapes only. -/
def OffersUnits (reg : Registry) (id : TypeId) : Prop :=
  ∀ last, reg.Comes id last → (reg.shape last).options = [] → (reg.shape last).isUnit = true

theorem OffersUnits.of_mem_options {next : TypeId} (h : reg.OffersUnits id)
    (hnext : next ∈ (reg.shape id).options) : reg.OffersUnits next :=
  fun last hlast => h last (.head hnext hlast)

/-- An answer is `null`, or that of a type which the record suits. -/
def Resolved (reg : Registry) (limit : Nat) (r : Request) : Prop :=
  r.source.all Json.isNull = true ∧ reg.answer limit r = .ok .null ∨
    ∃ record u, r.source = some (.obj record) ∧ reg.Comes r.id u ∧ reg.Suits record u ∧
      reg.answer limit r = reg.answer limit (r.as u)

/-- An answer that is no rejection at the path itself is that of a product or an inspect shape
which the record suits. -/
theorem resolved_of_answer : ∀ r : Request, reg.OffersUnits r.id →
    (∀ e, reg.answer limit r = .error e → e.rejectedAt r.path = false) → reg.Resolved limit r := by
  -- By induction at the same source value; a product or an inspect shape settles it.
  refine request_induction reg limit ?_
  intro r ih hunits hfinal
  have hself : (reg.shape r.id).options = [] → (reg.shape r.id).isUnit = true :=
    hunits r.id .refl
  have hstep : ∀ {next}, next ∈ (reg.shape r.id).options →
      reg.answer limit r = reg.answer limit (r.as next) → reg.Resolved limit r := by
    intro next hnext heq
    rw [heq] at hfinal
    rcases ih _ (.samePath (mem_samePath_of_mem_options hnext)) (hunits.of_mem_options hnext)
      hfinal with ⟨hnull, hanswer⟩ | ⟨record, u, hsource, hcomes, hsuits, hanswer⟩
    · exact .inl ⟨hnull, heq.trans hanswer⟩
    · exact .inr ⟨record, u, hsource, .head hnext hcomes, hsuits, heq.trans hanswer⟩
  cases hshape : reg.shape r.id with
  | primitive | nameSet | array =>
    rw [hshape] at hself
    cases hself rfl
  | nullable inner =>
    rcases answer_of_nullable_final hfinal hshape with hnull | heq
    · exact .inl hnull
    · exact hstep (by rw [hshape]; exact List.mem_cons_self) heq
  | union alternatives =>
    obtain ⟨a, ha, heq⟩ := exists_of_union_final hfinal hshape
    exact hstep (by rwa [hshape]) heq
  | product p =>
    obtain ⟨record, hsource, hadmits⟩ := admits_of_product_final hfinal hshape
    exact .inr ⟨record, r.id, hsource, .refl, .product hshape hadmits, rfl⟩
  | inspect i =>
    obtain ⟨record, hrecord⟩ := inspectable_of_inspect_final hfinal hshape
    obtain ⟨tag, htag, arm, harm, hbuilds⟩ := exists_of_inspectable? hrecord
    exact .inr ⟨record, r.id, eq_of_inspectable? hrecord, .refl,
      .inspect hshape htag harm hbuilds, rfl⟩

/-- A type comes to products and inspect shapes only, and no record suits two of them. -/
structure Discriminates (reg : Registry) (id : TypeId) : Prop where
  units : reg.OffersUnits id
  apart : ∀ {record u w}, reg.Comes id u → reg.Comes id w → reg.Suits record u →
    reg.Suits record w → u = w

/-- A record that some product at the same place takes, is taken by exactly one product or inspect
shape. -/
theorem Discriminates.existsUnique_takenBy (h : reg.Discriminates id)
    (hreads : reg.Reads id record) : ∃! u, reg.TakenBy id record u := by
  obtain ⟨u, hu⟩ := hreads.exists_takenBy
  refine ⟨u, hu, fun w hw => ?_⟩
  exact h.apart hw.comes hu.comes (hw.reads.suits hw.unit) (hu.reads.suits hu.unit)

/-- The alternatives of a union that tells records apart may stand in any order. -/
theorem Discriminates.decisive {alternatives : List TypeId} (h : reg.Discriminates id)
    (hshape : reg.shape id = .union alternatives) : reg.Decisive limit alternatives := by
  have hmem : ∀ {a}, a ∈ alternatives → a ∈ (reg.shape id).options := by
    intro a ha
    rw [hshape]
    exact ha
  intro r a ha b hb hfinal hfinal'
  have hnotNull : ∀ {record : Json.Record}, r.source = some (.obj record) →
      ¬ r.source.all Json.isNull = true := by
    intro record hsource hnull
    rw [hsource] at hnull
    cases hnull
  rcases resolved_of_answer (r.as a) (h.units.of_mem_options (hmem ha)) hfinal with
    ⟨hnull, heq⟩ | ⟨record, u, hsource, hcomes, hsuits, heq⟩
  · rcases resolved_of_answer (r.as b) (h.units.of_mem_options (hmem hb)) hfinal' with
      ⟨-, heq'⟩ | ⟨record, w, hsource, -⟩
    · exact heq.trans heq'.symm
    · exact absurd hnull (hnotNull hsource)
  · rcases resolved_of_answer (r.as b) (h.units.of_mem_options (hmem hb)) hfinal' with
      ⟨hnull, -⟩ | ⟨record', w, hsource', hcomes', hsuits', heq'⟩
    · exact absurd hnull (hnotNull hsource)
    · have hsame : some (Json.obj record) = some (.obj record') := hsource.symm.trans hsource'
      cases hsame
      obtain rfl : u = w :=
        h.apart (.head (hmem ha) hcomes) (.head (hmem hb) hcomes') hsuits hsuits'
      exact heq.trans heq'.symm

/-! ### A check that can be run -/

/-- Whether no product at the same place has a tag, as far as so many steps tell. -/
def avoidsTag (reg : Registry) (steps : Nat) (tag : String) (id : TypeId) : Bool :=
  reg.samePathSatisfy (fun last =>
    match (reg.shape last).asProduct? with
    | some p => p.source.tag != tag
    | none => true) steps id

theorem not_buildsFrom_of_avoidsTag {steps : Nat} {tag : String} {i : Inspect} {arm : Arm}
    (h : reg.avoidsTag steps tag id = true) (hshape : reg.shape id = .inspect i)
    (harm : arm ∈ i.arms) : ¬ reg.buildsFrom tag arm.target = true := by
  intro hbuilds
  obtain ⟨last, p, hlast, hproduct, rfl⟩ := exists_of_buildsFrom hbuilds
  have hcheck := of_samePathSatisfy h (.step (target_mem_samePath hshape harm) hlast)
  simp [hproduct, Shape.asProduct?] at hcheck

/-- Whether no record suits two types, as far as so many steps tell. -/
def excludes (reg : Registry) (steps : Nat) (u w : TypeId) : Bool :=
  match reg.shape u, reg.shape w with
  | .product p, .product q => p.source.conflicts q.source
  | .product p, .inspect _ => reg.avoidsTag steps p.source.tag w
  | .inspect _, .product q => reg.avoidsTag steps q.source.tag u
  | _, _ => false

theorem not_suits_of_excludes {steps : Nat} (h : reg.excludes steps u w = true)
    (hu : reg.Suits record u) : ¬ reg.Suits record w := by
  intro hw
  unfold excludes at h
  cases hu with
  | product hshape hadmits =>
    cases hw with
    | product hshape' hadmits' =>
      rw [hshape, hshape'] at h
      exact SourcePattern.conflicts.not_admits h hadmits hadmits'
    | inspect hshape' htag harm hbuilds =>
      rw [hshape, hshape'] at h
      obtain rfl := Option.some.inj (hadmits.1.symm.trans htag)
      exact not_buildsFrom_of_avoidsTag h hshape' harm hbuilds
  | inspect hshape htag harm hbuilds =>
    cases hw with
    | product hshape' hadmits' =>
      rw [hshape, hshape'] at h
      obtain rfl := Option.some.inj (hadmits'.1.symm.trans htag)
      exact not_buildsFrom_of_avoidsTag h hshape harm hbuilds
    | inspect hshape' =>
      rw [hshape, hshape'] at h
      cases h

/-- Whether a type is a product or an inspect shape that excludes all others to which another
type comes, as far as so many steps tell. -/
def standsApart (reg : Registry) (steps : Nat) (id u : TypeId) : Bool :=
  (reg.shape u).isUnit && Graph.endsSatisfy (fun id => (reg.shape id).options)
    (fun w => u = w || reg.excludes steps u w) steps id

/-- Whether a type comes to products and inspect shapes only, each of which excludes the others,
as far as so many steps tell. -/
def discriminatesWithin (reg : Registry) (steps : Nat) (id : TypeId) : Bool :=
  Graph.endsSatisfy (fun id => (reg.shape id).options) (reg.standsApart steps id) steps id

theorem Suits.options_eq_nil (h : reg.Suits record u) : (reg.shape u).options = [] := by
  cases h with
  | product shape => rw [shape]; rfl
  | inspect shape => rw [shape]; rfl

theorem discriminates_of_within {steps : Nat} (h : reg.discriminatesWithin steps id = true) :
    reg.Discriminates id := by
  rw [discriminatesWithin] at h
  constructor
  · intro last hlast hend
    have hapart := Graph.of_endsSatisfy h hlast hend
    exact (Bool.and_eq_true_iff.mp hapart).1
  · intro record u w hu hw hsuits hsuits'
    have hapart := Graph.of_endsSatisfy h hu hsuits.options_eq_nil
    have hothers := (Bool.and_eq_true_iff.mp hapart).2
    have hother := Graph.of_endsSatisfy hothers hw hsuits'.options_eq_nil
    rcases Bool.or_eq_true_iff.mp hother with heq | hexcludes
    · exact of_decide_eq_true heq
    · exact absurd hsuits' (not_suits_of_excludes hexcludes hsuits)

/-- Whether all parts of given types are among them, and all unions among them tell records
apart. -/
def unionsDiscriminate (reg : Registry) (steps : Nat) (ids : List TypeId) : Bool :=
  ids.all fun id =>
    (reg.shape id).parts.all (· ∈ ids) &&
      match reg.shape id with
      | .union _ => reg.discriminatesWithin steps id
      | _ => true

/-- All unions that one of the given types uses tell records apart. -/
theorem discriminates_of_unionsDiscriminate {steps : Nat} {ids : List TypeId}
    (h : reg.unionsDiscriminate steps ids = true) {root : TypeId} (hroot : root ∈ ids)
    (huses : reg.Uses root id) {alternatives : List TypeId}
    (hshape : reg.shape id = .union alternatives) : reg.Discriminates id := by
  have hmem : id ∈ ids := by
    clear hshape
    induction huses with
    | refl => exact hroot
    | @tail last next _ hnext ih =>
      have hparts := (Bool.and_eq_true_iff.mp (List.all_eq_true.mp h last ih)).1
      exact of_decide_eq_true (List.all_eq_true.mp hparts next hnext)
  have hunion := (Bool.and_eq_true_iff.mp (List.all_eq_true.mp h id hmem)).2
  rw [hshape] at hunion
  exact discriminates_of_within hunion

end Registry

end TypedTree
