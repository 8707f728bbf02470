/-
Types that sort records, and choices by a probed field.

A type sorts records if it comes to products only, through unions, and no record suits two of them.
What it accepts is then what one of its products accepts. Main statements:

* `Registry.Sorts`, `Registry.Sorts.answer_iff` — acceptance by a product below the type;
* `Registry.Sorts.isInstance_iff` — its instances are the nodes of these products;
* `Registry.Sorts.takes_iff` — a part of a type accepts a source to which the type gave a value if
  and only if the value is an instance of it;
* `Registry.answer_inspect_iff` — so a product may take a value that was probed for one of its
  fields as well as read the field on its own;
* `Registry.sortsWithin`, `Registry.readsAsWithin` — checks of the conditions that can be run.

Design notes: where the field of a product has a narrower type than the probe, the one route tests
the probed value and the other one reads the source again. Both come out alike since a record suits
one product only, and the nodes of that product are the instances.
-/
import TypedTree.Proofs.Translation.Construction
import TypedTree.Proofs.Translation.Discrimination
import TypedTree.Proofs.Translation.Heads

namespace TypedTree

namespace Registry

variable {reg : Registry} {limit : Nat} {r : Request} {record : Json.Record} {id u w : TypeId}

/-! ### Products -/

/-- A product that accepts a source finds a record there that it suits. -/
theorem exists_suits_of_product {p : Product} {v : Value} (hshape : reg.shape u = .product p)
    (hv : reg.answer limit (r.as u) = .ok v) :
    ∃ record, r.source = some (.obj record) ∧ p.source.Admits record := by
  obtain ⟨record, -, hrecord, -⟩ := of_answer_product_eq_ok (r := r.as u) hshape hv
  exact ⟨record, matchRecord_eq_ok_iff.mp hrecord⟩

/-- What a product accepts becomes a node of its own. -/
theorem exists_node_of_as {p : Product} {v : Value} (hshape : reg.shape u = .product p)
    (hv : reg.answer limit (r.as u) = .ok v) : ∃ n : Node, v = n.toValue ∧ n.id = u :=
  exists_node_of_type (r := r.as u) hshape hv

/-- Where its fields have the same values, a product answers the same, whatever stands ready. -/
theorem answer_product_congr {s : Request} {p : Product} {v : Value}
    (hplace : r.SamePlace s) (hid : s.id = r.id) (hshape : reg.shape r.id = .product p)
    (hfields : ∀ record field, r.source = some (.obj record) → field ∈ p.fields →
      field.isComputed = false → ∀ w, reg.answerField limit r record field = .ok w →
        reg.answerField limit s record field = .ok w)
    (hv : reg.answer limit r = .ok v) : reg.answer limit s = .ok v := by
  obtain ⟨record, slots, hrecord, hdepth, hslots, rfl⟩ := of_answer_product_eq_ok hshape hv
  have hsource := (matchRecord_eq_ok_iff.mp hrecord).1
  rw [← hid] at hshape hrecord ⊢
  refine answer_product_of_supplies hshape ?_ (hplace.depth ▸ hdepth) ?_
  · rwa [hplace.source, hplace.path]
  · refine forall₂_imp_of_mem_left (fun field slot hmem hslot => ?_) hslots
    rw [Supplies] at hslot ⊢
    split at hslot
    · next hcomp => rw [if_pos hcomp, hslot]
    · next hcomp =>
      obtain ⟨w, rfl, hw⟩ := hslot
      rw [if_neg hcomp]
      exact ⟨w, rfl, hfields record field hsource hmem (by simpa using hcomp) w hw⟩

/-! ### Sorting -/

theorem eq_or_exists_of_comes (h : reg.Comes id u) :
    u = id ∨ ∃ next ∈ (reg.shape id).options, reg.Comes next u := by
  rcases h.cases_head with heq | ⟨next, hnext, hrest⟩
  · exact .inl heq.symm
  · exact .inr ⟨next, hnext, hrest⟩

theorem samePath_of_comes (h : reg.Comes id u) : reg.SamePath id u := by
  induction h using Relation.ReflTransGen.head_induction_on with
  | refl => exact .refl u
  | head hnext _ ih => exact .step (mem_samePath_of_mem_options hnext) ih

/-- A type comes to products only, through unions, and no record suits two of them. -/
structure Sorts (reg : Registry) (id : TypeId) : Prop extends Discriminates reg id where
  plain : ∀ u, reg.Comes id u →
    (∃ alternatives, reg.shape u = .union alternatives) ∨ ∃ p, reg.shape u = .product p

namespace Sorts

theorem of_comes (h : reg.Sorts id) (hcomes : reg.Comes id u) : reg.Sorts u where
  units last hlast := h.units last (hcomes.trans hlast)
  apart hu hw := h.apart (hcomes.trans hu) (hcomes.trans hw)
  plain last hlast := h.plain last (hcomes.trans hlast)

/-- What a type that sorts records accepts, one of its products accepts. -/
theorem exists_product : ∀ (r : Request) {v : Value}, reg.Sorts r.id →
    reg.answer limit r = .ok v → ∃ u p, reg.Comes r.id u ∧ reg.shape u = .product p ∧
      reg.answer limit (r.as u) = .ok v := by
  refine request_induction reg limit ?_
  intro r ih v hsorts hv
  rcases hsorts.plain r.id .refl with ⟨alternatives, hshape⟩ | ⟨p, hshape⟩
  · obtain ⟨a, ha, hanswer⟩ := of_answer_union_eq_ok hshape hv
    have hnext : a ∈ (reg.shape r.id).options := by rwa [hshape]
    obtain ⟨u, p, hcomes, hproduct, hu⟩ := ih (r.as a)
      (.samePath (mem_samePath_of_mem_options hnext)) (hsorts.of_comes (.single hnext)) hanswer
    exact ⟨u, p, .head hnext hcomes, hproduct, hu⟩
  · exact ⟨r.id, p, .refl, hshape, hv⟩

/-- A rejection goes down to all products. -/
theorem rejects_of_comes (h : reg.Sorts id) (hcomes : reg.Comes id u) :
    ∀ {r : Request}, r.id = id → reg.Rejects limit r → reg.Rejects limit (r.as u) := by
  induction hcomes using Relation.ReflTransGen.head_induction_on with
  | refl =>
    rintro r rfl hrejects
    exact hrejects
  | @head id next hnext _ ih =>
    rintro r rfl hrejects
    have hsorts := h.of_comes (.single hnext)
    have hnext : next ∈ (reg.shape r.id).options := hnext
    rcases h.plain r.id .refl with ⟨alternatives, hshape⟩ | ⟨p, hshape⟩
    · rw [hshape] at hnext
      exact @ih hsorts (r.as next) rfl ((rejects_union_iff hshape).mp hrejects next hnext)
    · rw [hshape] at hnext
      cases hnext

/-- What one of its products accepts, a type that sorts records accepts. -/
theorem answer_of_product {v : Value} (h : reg.Sorts r.id) (hcomes : reg.Comes r.id u)
    {p : Product} (hshape : reg.shape u = .product p) (hu : reg.answer limit (r.as u) = .ok v) :
    reg.answer limit r = .ok v := by
  obtain ⟨record, hsource, hadmits⟩ := exists_suits_of_product hshape hu
  have hfinal : ¬ reg.Rejects limit r := fun hrejects =>
    not_rejects_of_ok hu (h.rejects_of_comes hcomes rfl hrejects)
  rcases resolved_of_answer r h.units (not_rejects_iff.mp hfinal) with
    ⟨hnull, -⟩ | ⟨found, w, hfound, hw, hsuits, hanswer⟩
  · rw [hsource] at hnull
    cases hnull
  · cases hsource.symm.trans hfound
    obtain rfl : w = u := h.apart hw hcomes hsuits (.product hshape hadmits)
    rw [hanswer, hu]

/-- A type that sorts records accepts what one of its products accepts. -/
theorem answer_iff {v : Value} (h : reg.Sorts r.id) : reg.answer limit r = .ok v ↔
    ∃ u p, reg.Comes r.id u ∧ reg.shape u = .product p ∧ reg.answer limit (r.as u) = .ok v :=
  ⟨exists_product r h, fun ⟨_, _, hcomes, hshape, hu⟩ => h.answer_of_product hcomes hshape hu⟩

/-- Only one of its products accepts a source. -/
theorem eq_of_answer {v v' : Value} {p q : Product} (h : reg.Sorts id) (hu : reg.Comes id u)
    (hw : reg.Comes id w) (hp : reg.shape u = .product p) (hq : reg.shape w = .product q)
    (hv : reg.answer limit (r.as u) = .ok v) (hv' : reg.answer limit (r.as w) = .ok v') :
    u = w := by
  obtain ⟨record, hsource, hadmits⟩ := exists_suits_of_product hp hv
  obtain ⟨found, hfound, hadmits'⟩ := exists_suits_of_product hq hv'
  cases hsource.symm.trans hfound
  exact h.apart hu hw (.product hp hadmits) (.product hq hadmits')

/-- The instances of a type that sorts records are the nodes of its products. -/
theorem isInstance_iff {n : Node} {p : Product} (hn : reg.shape n.id = .product p) :
    ∀ {id : TypeId}, reg.Sorts id → (reg.isInstance id n.toValue = true ↔ reg.Comes id n.id) := by
  intro id
  -- By induction along unions. The way from a type that sorts records to a product goes through
  -- unions only.
  induction id using (wellFounded_follows reg).induction with
  | _ id ih =>
    intro h
    rw [isInstance_eq]
    rcases h.plain id .refl with ⟨alternatives, hshape⟩ | ⟨q, hshape⟩
    · have hoptions : (reg.shape id).options = alternatives := by rw [hshape]; rfl
      have hsteps : ∀ a ∈ alternatives,
          (reg.isInstance a n.toValue = true ↔ reg.Comes a n.id) := by
        intro a ha
        have hnext : a ∈ (reg.shape id).options := hoptions ▸ ha
        exact ih a (mem_samePath_of_mem_options hnext) (h.of_comes (.single hnext))
      rw [hshape]
      dsimp only
      rw [List.any_eq_true]
      constructor
      · rintro ⟨a, ha, hinstance⟩
        rw [← hoptions] at ha
        exact .head ha ((hsteps a (hoptions ▸ ha)).mp hinstance)
      · intro hcomes
        rcases eq_or_exists_of_comes hcomes with heq | ⟨a, ha, hrest⟩
        · rw [heq, hshape] at hn
          cases hn
        · rw [hoptions] at ha
          exact ⟨a, ha, (hsteps a ha).mpr hrest⟩
    · rw [hshape]
      show (some n.id == some id) = true ↔ reg.Comes id n.id
      rw [beq_iff_eq, Option.some.injEq]
      constructor
      · rintro rfl
        exact .refl
      · intro hcomes
        rcases eq_or_exists_of_comes hcomes with heq | ⟨a, ha, -⟩
        · exact heq
        · rw [hshape] at ha
          cases ha

/-- Where a type gave a value to a source, a part of it accepts the source if and only if the value
is an instance of that part. The value is the same then. -/
theorem takes_iff {v x : Value} (h : reg.Sorts r.id) (hv : reg.answer limit r = .ok v)
    (hcomes : reg.Comes r.id u) :
    reg.answer limit (r.as u) = .ok x ↔ reg.isInstance u v = true ∧ x = v := by
  obtain ⟨built, p, hbuilt, hproduct, hanswer⟩ := exists_product r h hv
  obtain ⟨n, rfl, hid⟩ := exists_node_of_as hproduct hanswer
  rw [isInstance_iff (by rw [hid]; exact hproduct) (h.of_comes hcomes), hid]
  constructor
  · intro hx
    obtain ⟨last, q, hlast, hlastProduct, hlastAnswer⟩ :=
      exists_product (r.as u) (h.of_comes hcomes) hx
    obtain rfl := h.eq_of_answer (hcomes.trans hlast) hbuilt hlastProduct hproduct hlastAnswer
      hanswer
    exact ⟨hlast, Except.ok.inj (hlastAnswer.symm.trans hanswer)⟩
  · rintro ⟨hlast, rfl⟩
    exact answer_of_product (r := r.as u) (h.of_comes hcomes) hlast hproduct hanswer

/-- What a part of a type accepts, the type accepts. -/
theorem answer_of_comes {v : Value} (h : reg.Sorts r.id) (hcomes : reg.Comes r.id u)
    (hu : reg.answer limit (r.as u) = .ok v) : reg.answer limit r = .ok v := by
  obtain ⟨last, p, hlast, hproduct, hanswer⟩ := exists_product (r.as u) (h.of_comes hcomes) hu
  exact h.answer_of_product (hcomes.trans hlast) hproduct hanswer

end Sorts

/-! ### Choices by a field -/

/-- All products to which a type comes read a key, and every field that does has to be in the
source and has a part of a given type. -/
def ReadsAs (reg : Registry) (key : String) (part id : TypeId) : Prop :=
  ∀ u p, reg.Comes id u → reg.shape u = .product p →
    (∃ field ∈ p.fields, field.isComputed = false ∧ field.source = .key key) ∧
    ∀ field ∈ p.fields, field.isComputed = false → field.source = .key key →
      field.population = .required ∧ reg.Comes part field.type

/-- A field of a part of a type, from what stands ready and from the source. -/
theorem answerField_iff_of_ready {field : Field} {key : String} {part : TypeId} {ready x : Value}
    (hsorts : reg.Sorts part) (hpreset : r.preset = none) (hkey : field.source = .key key)
    (hrequired : field.population = .required) (hcomes : reg.Comes part field.type)
    (hready : reg.answer limit (r.part part (record.get? key) (r.path.field key)) = .ok ready) :
    reg.answerField limit (r.handing id ⟨key, ready⟩) record field = .ok x ↔
      reg.answerField limit r record field = .ok x := by
  have hread : reg.answerField limit r record field =
      reg.answer limit ((r.part part (record.get? key) (r.path.field key)).as field.type) := by
    rw [answerField_of_required hrequired (by simp [hpreset]), Field.sourceIn, Field.stepKey, hkey]
    rfl
  rw [hread, hsorts.takes_iff hready hcomes,
    answerField_of_preset (r := r.handing id ⟨key, ready⟩) rfl hkey, takePreset_eq_ok_iff]

/-- A type accepts a record with a value that stands ready for a key as it does without, if that is
what the source has under the key. -/
theorem answer_handing_iff {key : String} {part target : TypeId} {ready v : Value}
    (hpart : reg.Sorts part) (htarget : reg.Sorts target) (hreads : reg.ReadsAs key part target)
    (hpreset : r.preset = none) (hsource : r.source = some (.obj record))
    (hready : reg.answer limit (r.part part (record.get? key) (r.path.field key)) = .ok ready) :
    reg.answer limit (r.handing target ⟨key, ready⟩) = .ok v ↔
      reg.answer limit (r.as target) = .ok v := by
  rw [Sorts.answer_iff (r := r.handing target ⟨key, ready⟩) htarget,
    Sorts.answer_iff (r := r.as target) htarget]
  refine exists_congr fun u => exists_congr fun p => and_congr_right fun hcomes =>
    and_congr_right fun hshape => ?_
  -- Field by field: one that reads the key takes what stands ready, and any other takes no notice.
  have hfield : ∀ field ∈ p.fields, field.isComputed = false → ∀ w,
      (reg.answerField limit (r.handing u ⟨key, ready⟩) record field = .ok w ↔
        reg.answerField limit (r.as u) record field = .ok w) := by
    intro field hmem hcomp w
    by_cases hkey : field.source = .key key
    · obtain ⟨hrequired, hfieldType⟩ := (hreads u p hcomes hshape).2 field hmem hcomp hkey
      exact answerField_iff_of_ready (r := r.as u) hpart hpreset hkey hrequired hfieldType hready
    · rw [answerField_without_preset (r := r.handing u ⟨key, ready⟩)]
      · rw [show (r.handing u ⟨key, ready⟩).withoutPreset = r.as u by
          rw [Request.withoutPreset, Request.handing, Request.as, hpreset]]
      · intro preset hpreset
        cases hpreset
        exact hkey
  constructor
  · refine answer_product_congr (r := r.handing u ⟨key, ready⟩) ⟨rfl, rfl, rfl⟩ rfl hshape ?_
    intro found field hfound hmem hcomp w hw
    cases hsource.symm.trans hfound
    exact (hfield field hmem hcomp w).mp hw
  · refine answer_product_congr (r := r.as u) ⟨rfl, rfl, rfl⟩ rfl hshape ?_
    intro found field hfound hmem hcomp w hw
    cases hsource.symm.trans hfound
    exact (hfield field hmem hcomp w).mpr hw

/-- An inspect shape accepts a record as the target of an arm does, if the probe gives the values
of a type of which the target reads parts, and the arm is chosen for them. -/
theorem answer_inspect_iff {i : Inspect} {arm : Arm} {part : TypeId} {v : Value}
    (hshape : reg.shape r.id = .inspect i) (hpreset : r.preset = none)
    (hsource : r.source = some (.obj record)) (harm : arm ∈ i.arms) (hpart : reg.Sorts part)
    (htarget : reg.Sorts arm.target) (hreads : reg.ReadsAs i.field part arm.target)
    (hprobe : ∀ w, reg.answer limit (r.probe i record) = .ok w ↔
      reg.answer limit (r.part part (record.get? i.field) (r.path.field i.field)) = .ok w)
    (hchoice : ∀ w, reg.answer limit (r.probe i record) = .ok w →
      i.arms.find? (fun arm => reg.isInstance arm.test w) = some arm) :
    reg.answer limit r = .ok v ↔ reg.answer limit (r.as arm.target) = .ok v := by
  constructor
  · intro hv
    obtain ⟨found, probed, chosen, hfound, hprobed, hchosen, hanswer⟩ :=
      of_answer_inspect_eq_ok hshape hv
    cases hsource.symm.trans (eq_of_inspectable? hfound)
    obtain rfl : arm = chosen := Option.some.inj ((hchoice probed hprobed).symm.trans hchosen)
    exact (answer_handing_iff hpart htarget hreads hpreset hsource
      ((hprobe probed).mp hprobed)).mp hanswer
  · intro hv
    -- The target reads the field, so there is a value to be probed.
    obtain ⟨u, p, hcomes, hproduct, hu⟩ := Sorts.exists_product (r.as arm.target) htarget hv
    obtain ⟨⟨field, hmem, hcomp, hkey⟩, hall⟩ := hreads u p hcomes hproduct
    obtain ⟨hrequired, hfieldType⟩ := hall field hmem hcomp hkey
    obtain ⟨hadmits, -, hfields⟩ :=
      (exists_answer_product_iff (r := r.as u) hproduct hsource).mp ⟨v, hu⟩
    obtain ⟨w, hw⟩ := hfields field hmem hcomp
    have hfield : reg.answer limit
        ((r.part part (record.get? i.field) (r.path.field i.field)).as field.type) = .ok w := by
      rw [answerField_of_required (r := r.as u) hrequired (by simp [Request.as, hpreset]),
        Field.sourceIn, Field.stepKey, hkey] at hw
      exact hw
    have hready := Sorts.answer_of_comes
      (r := r.part part (record.get? i.field) (r.path.field i.field)) hpart hfieldType hfield
    have hprobed := (hprobe w).mpr hready
    have hlooks : reg.inspectable? i r.source = some record :=
      inspectable?_eq_some hsource hadmits.1 harm
        (buildsFrom_of_samePath (samePath_of_comes hcomes) hproduct)
    rw [(Hands.target hshape hlooks hprobed (hchoice w hprobed)).answer_eq]
    exact (answer_handing_iff hpart htarget hreads hpreset hsource hready).mpr hv

/-! ### Checks that can be run -/

/-- Whether a type sorts records, as far as so many steps tell. -/
def sortsWithin (reg : Registry) (steps : Nat) (id : TypeId) : Bool :=
  reg.discriminatesWithin steps id && reg.samePathSatisfy (fun u =>
    match reg.shape u with
    | .union _ | .product _ => true
    | _ => false) steps id

theorem sorts_of_within {steps : Nat} (h : reg.sortsWithin steps id = true) : reg.Sorts id := by
  obtain ⟨hdiscriminates, hplain⟩ := Bool.and_eq_true_iff.mp h
  refine ⟨discriminates_of_within hdiscriminates, fun u hu => ?_⟩
  have hshape := of_samePathSatisfy hplain (samePath_of_comes hu)
  split at hshape
  · next alternatives hunion => exact .inl ⟨alternatives, hunion⟩
  · next p hproduct => exact .inr ⟨p, hproduct⟩
  · cases hshape

/-- Whether a field has to be in the source and has a given type or, if that is a union, the type of
an alternative. -/
def isPartOf (reg : Registry) (part : TypeId) (field : Field) : Bool :=
  (match field.population with
    | .required => true
    | _ => false) && (field.type = part || field.type ∈ (reg.shape part).options)

/-- Whether all products to which a type comes read a key as parts of a type, as far as so many
steps tell. -/
def readsAsWithin (reg : Registry) (steps : Nat) (key : String) (part id : TypeId) : Bool :=
  Graph.endsSatisfy (fun id => (reg.shape id).options) (fun u =>
    match reg.shape u with
    | .product p => p.fields.any (·.readsKey key) &&
        p.fields.all fun field => !field.readsKey key || reg.isPartOf part field
    | _ => true) steps id

theorem readsAs_of_within {steps : Nat} {key : String} {part : TypeId}
    (h : reg.readsAsWithin steps key part id = true) : reg.ReadsAs key part id := by
  intro u p hu hshape
  have hcheck := Graph.of_endsSatisfy h hu (by rw [hshape]; rfl)
  rw [hshape] at hcheck
  obtain ⟨hany, hall⟩ := Bool.and_eq_true_iff.mp hcheck
  constructor
  · obtain ⟨field, hmem, hreads⟩ := List.any_eq_true.mp hany
    exact ⟨field, hmem, Field.readsKey_iff.mp hreads⟩
  · intro field hmem hcomp hkey
    have hfield := List.all_eq_true.mp hall field hmem
    rw [Field.readsKey_iff.mpr ⟨hcomp, hkey⟩, Bool.not_true, Bool.false_or, isPartOf] at hfield
    obtain ⟨hrequired, htype⟩ := Bool.and_eq_true_iff.mp hfield
    constructor
    · split at hrequired
      · next heq => exact heq
      · cases hrequired
    · rcases Bool.or_eq_true_iff.mp htype with heq | hmem
      · rw [of_decide_eq_true heq]
        exact .refl
      · exact .single (of_decide_eq_true hmem)

end Registry

end TypedTree
