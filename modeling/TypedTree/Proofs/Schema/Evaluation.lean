/-
Evaluation of computed fields.

The plan of a product evaluates each computed field behind those it depends on, so that
in the finished node every computed field holds what its rule makes of its siblings. Main
statements:

* `Product.of_plan_eq_ok` — what a plan promises: field names are distinct, dependencies
  are fields, and the order puts dependencies first;
* `Product.Progress.step` — one step keeps what holds of the values so far;
* `Product.complete_spec` — the finished fields: those supplied are as they were, and the
  equations of the computed ones hold;
* `Product.exists_lookup_complete` — the same for one supplied field, by its name;
* `Product.evaluates_of_plan` — on the way every rule gets the finished values of its
  dependencies, one for each, and in the end no field is without a value.

Design notes: `Progress` says of every value present that it satisfies its equation. A
step then changes nothing for a field that was evaluated before, so the plan may name a
field more than once.
-/
import TypedTree.Proofs.Traversal
import TypedTree.Translation.Product

namespace TypedTree

theorem Graph.Ordered.of_append {α : Type} {next : α → List α} {order rest : List α}
    (h : Ordered next (order ++ rest)) : Ordered next order := by
  intro before v after heq w hw
  exact h before v (after ++ rest) (by simp [heq]) w hw

namespace Product

variable {p : Product} {t : String}

/-! ### What a plan promises -/

theorem nodup_of_firstRepeated?_eq_none : ∀ {names seen : List String},
    firstRepeated? seen names = none → names.Nodup ∧ ∀ name ∈ names, name ∉ seen := by
  intro names
  induction names with
  | nil =>
    intro seen _
    simp
  | cons name names ih =>
    intro seen h
    rw [firstRepeated?] at h
    split at h
    · cases h
    · next hseen =>
      obtain ⟨hnodup, hall⟩ := ih h
      refine ⟨List.nodup_cons.mpr ⟨fun hmem => hall name hmem List.mem_cons_self, hnodup⟩, ?_⟩
      intro name' hmem
      rcases List.mem_cons.mp hmem with rfl | hmem
      · exact hseen
      · exact fun hs => hall name' hmem (List.mem_cons_of_mem _ hs)

theorem firstRepeated?_eq_none_of_nodup : ∀ {names seen : List String}, names.Nodup →
    (∀ name ∈ names, name ∉ seen) → firstRepeated? seen names = none := by
  intro names
  induction names with
  | nil => exact fun _ _ => rfl
  | cons name names ih =>
    intro seen hnodup hnew
    obtain ⟨hname, hnames⟩ := List.nodup_cons.mp hnodup
    obtain ⟨hnew, hnews⟩ := List.forall_mem_cons.mp hnew
    rw [firstRepeated?, if_neg hnew]
    refine ih hnames fun other hother hmem => ?_
    rcases List.mem_cons.mp hmem with rfl | hmem
    · exact hname hother
    · exact hnews other hother hmem

/-- A product without computed fields has the empty plan, if its field names are distinct. -/
theorem plan_eq_nil (hnodup : p.fieldNames.Nodup)
    (hplain : ∀ field ∈ p.fields, field.rule? = none) : p.plan t = .ok [] := by
  have hrepeated : firstRepeated? [] p.fieldNames = none :=
    firstRepeated?_eq_none_of_nodup hnodup (by simp)
  have htable : p.fields.mapM (p.resolve t) = .ok (p.fields.map fun _ => none) := by
    refine mapM_eq_ok_iff.mpr (List.forall₂_map_right_iff.mpr (List.forall₂_same.mpr ?_))
    intro field hfield
    rw [resolve, hplain field hfield]
  have hpositions : computedPositions (p.fields.map fun _ => none) = [] := by
    refine List.filter_eq_nil_iff.mpr fun position _ => ?_
    rw [List.getElem?_map]
    cases p.fields[position]? <;> simp
  rw [plan, hrepeated, htable]
  simp only [bind, Except.bind, hpositions]
  rfl

/-- The table of a product's dependencies, by position. -/
def Table (p : Product) (t : String) (table : List (Option (List Nat))) : Prop :=
  List.Forall₂ (fun field entry => p.resolve t field = .ok entry) p.fields table

/-- What a plan promises. -/
theorem of_plan_eq_ok {plan : List ComputeStep} (h : p.plan t = .ok plan) :
    p.fieldNames.Nodup ∧ ∃ table order, p.Table t table ∧
      Graph.Ordered (computedDependencies table) order ∧
      (∀ i ∈ computedPositions table, i ∈ order) ∧
      plan = order.map fun i => ⟨i, dependenciesAt table i⟩ := by
  unfold Product.plan at h
  split at h
  · cases h
  · next hnone =>
    obtain ⟨table, htable, h⟩ := bind_eq_ok_iff.mp h
    split at h
    · next order horder =>
      cases h
      obtain ⟨hordered, hall⟩ := Graph.ordered_of_topological horder
      exact ⟨(nodup_of_firstRepeated?_eq_none
        (Option.eq_none_iff_forall_ne_some.mpr hnone)).1, table, order, mapM_eq_ok_iff.mp htable,
        hordered, hall, rfl⟩
    · cases h

theorem of_resolve_eq_ok {field : Field} {entry : Option (List Nat)}
    (h : p.resolve t field = .ok entry) :
    match field.rule? with
    | none => entry = none
    | some rule => ∃ positions, entry = some positions ∧
        List.Forall₂ (fun dep i => p.fieldNames[i]? = some dep) rule.dependencies positions := by
  unfold resolve at h
  cases hrule : field.rule? with
  | none =>
    rw [hrule] at h
    cases h
    rfl
  | some rule =>
    rw [hrule] at h
    obtain ⟨positions, hpositions, h⟩ := bind_eq_ok_iff.mp h
    cases h
    refine ⟨positions, rfl, (mapM_eq_ok_iff.mp hpositions).imp ?_⟩
    intro dep i hi
    split at hi
    · next position hfind =>
      cases hi
      obtain ⟨hlt, heq, -⟩ := List.findIdx?_eq_some_iff_getElem.mp hfind
      rw [List.getElem?_eq_getElem hlt]
      simpa using heq
    · cases hi

variable {table : List (Option (List Nat))}

theorem Table.length_eq (h : p.Table t table) : p.fields.length = table.length :=
  List.Forall₂.length_eq h

theorem Table.entry (h : p.Table t table) {i : Nat} {field : Field}
    (hi : p.fields[i]? = some field) :
    ∃ entry, table[i]? = some entry ∧ p.resolve t field = .ok entry := by
  obtain ⟨hlt, rfl⟩ := List.getElem?_eq_some_iff.mp hi
  have hlt' : i < table.length := h.length_eq ▸ hlt
  exact ⟨table[i], List.getElem?_eq_getElem hlt', List.Forall₂.get h hlt hlt'⟩

theorem Table.dependenciesAt (h : p.Table t table) {i : Nat} {field : Field} {rule : Computed}
    (hi : p.fields[i]? = some field) (hrule : field.rule? = some rule) :
    List.Forall₂ (fun dep j => p.fieldNames[j]? = some dep) rule.dependencies
      (dependenciesAt table i) := by
  obtain ⟨entry, hentry, hres⟩ := h.entry hi
  have hspec := of_resolve_eq_ok hres
  rw [hrule] at hspec
  obtain ⟨positions, rfl, hpositions⟩ := hspec
  rwa [Product.dependenciesAt, hentry]

theorem Table.isSome_iff (h : p.Table t table) {i : Nat} {field : Field}
    (hi : p.fields[i]? = some field) :
    (table[i]?.getD none).isSome = field.isComputed := by
  obtain ⟨entry, hentry, hres⟩ := h.entry hi
  have hspec := of_resolve_eq_ok hres
  rw [hentry, Field.isComputed]
  cases hrule : field.rule? with
  | none =>
    rw [hrule] at hspec
    simp [hspec]
  | some rule =>
    rw [hrule] at hspec
    obtain ⟨positions, rfl, -⟩ := hspec
    rfl

/-- The position holds a computed field. -/
def IsComputedAt (table : List (Option (List Nat))) (i : Nat) : Prop :=
  (table[i]?.getD none).isSome

theorem Table.exists_of_isComputedAt (h : p.Table t table) {i : Nat}
    (hi : IsComputedAt table i) : ∃ field, p.fields[i]? = some field := by
  rcases Nat.lt_or_ge i p.fields.length with hlt | hge
  · exact ⟨p.fields[i], List.getElem?_eq_getElem hlt⟩
  · rw [IsComputedAt, List.getElem?_eq_none (by rw [← h.length_eq]; exact hge)] at hi
    cases hi

theorem Table.lt_of_mem_dependenciesAt (h : p.Table t table) {i j : Nat}
    (hj : j ∈ Product.dependenciesAt table i) : j < p.fields.length := by
  have hcomp : IsComputedAt table i := by
    rw [IsComputedAt]
    cases hentry : table[i]?.getD none with
    | none =>
      rw [Product.dependenciesAt, hentry] at hj
      cases hj
    | some _ => rfl
  obtain ⟨field, hfield⟩ := h.exists_of_isComputedAt hcomp
  have hfc : field.isComputed = true := (h.isSome_iff hfield).symm.trans hcomp
  obtain ⟨rule, hrule⟩ := Option.isSome_iff_exists.mp hfc
  obtain ⟨dep, -, hdep⟩ := exists_of_forall₂_of_mem_right (h.dependenciesAt hfield hrule) hj
  obtain ⟨hlt, -⟩ := List.getElem?_eq_some_iff.mp hdep
  rwa [fieldNames, List.length_map] at hlt

/-! ### One step of the evaluation -/

/-- The value at a position, if there is one yet. -/
def slotAt (slots : List (Option Value)) (i : Nat) : Option Value := slots[i]?.getD none

theorem slotAt_set {slots : List (Option Value)} {i j : Nat} {v : Value}
    (hi : i < slots.length) :
    slotAt (slots.set i (some v)) j = if i = j then some v else slotAt slots j := by
  rw [slotAt, slotAt, List.getElem?_set]
  by_cases hij : i = j
  · subst hij
    simp [hi]
  · simp [hij]

/-- The values present under positions. -/
def Values (slots : List (Option Value)) (positions : List Nat) (args : List Value) : Prop :=
  List.Forall₂ (fun i arg => slotAt slots i = some arg) positions args

theorem values_filterMap {slots : List (Option Value)} : ∀ {positions : List Nat},
    (∀ i ∈ positions, (slotAt slots i).isSome) →
      Values slots positions (positions.filterMap fun i => slots[i]?.getD none) := by
  intro positions
  induction positions with
  | nil =>
    intro _
    exact .nil
  | cons i positions ih =>
    intro h
    obtain ⟨v, hv⟩ := Option.isSome_iff_exists.mp (h i List.mem_cons_self)
    show Values slots (i :: positions) ((i :: positions).filterMap (slotAt slots))
    rw [List.filterMap_cons_some hv]
    exact .cons hv (ih fun j hj => h j (List.mem_cons_of_mem _ hj))

theorem Values.unique {slots : List (Option Value)} {positions : List Nat} {args args' : List Value}
    (h : Values slots positions args) (h' : Values slots positions args') : args = args' := by
  induction h generalizing args' with
  | nil =>
    cases h'
    rfl
  | cons hv _ ih =>
    cases h' with
    | cons hv' h' =>
      rw [hv] at hv'
      cases hv'
      rw [ih h']

/-- What holds of the values between the steps of an evaluation that started with those
supplied. -/
structure Progress (p : Product) (table : List (Option (List Nat))) (G : Nat → Value → Prop)
    (supplied slots : List (Option Value)) : Prop where
  length : slots.length = p.fields.length
  kept : ∀ {i v}, slotAt supplied i = some v → slotAt slots i = some v
  equation : ∀ {i field rule v}, p.fields[i]? = some field → field.rule? = some rule →
    slotAt slots i = some v →
      ∃ args, Values slots (dependenciesAt table i) args ∧ v = rule.evaluate args
  good : ∀ {i v}, slotAt slots i = some v → G i v

/-- The rules make good values of good ones. -/
def Respects (p : Product) (table : List (Option (List Nat))) (G : Nat → Value → Prop) : Prop :=
  ∀ {i field rule args}, p.fields[i]? = some field → field.rule? = some rule →
    List.Forall₂ G (dependenciesAt table i) args → G i (rule.evaluate args)

variable {G : Nat → Value → Prop} {supplied slots : List (Option Value)}

/-- One step: its field has a value now, and every value that was there stays. -/
theorem Progress.step (h : Progress p table G supplied slots) (hG : Respects p table G) {i : Nat}
    (hdeps : ∀ j ∈ dependenciesAt table i, (slotAt slots j).isSome) :
    Progress p table G supplied (p.computeStep slots ⟨i, dependenciesAt table i⟩) ∧
      (∀ {j v}, slotAt slots j = some v →
        slotAt (p.computeStep slots ⟨i, dependenciesAt table i⟩) j = some v) ∧
      ∀ field, p.fields[i]? = some field → field.isComputed = true →
        (slotAt (p.computeStep slots ⟨i, dependenciesAt table i⟩) i).isSome := by
  have hargs := values_filterMap hdeps
  unfold computeStep
  split
  · next rule hrule =>
    obtain ⟨field, hfield, hrule⟩ := Option.bind_eq_some_iff.mp hrule
    obtain ⟨hlt, -⟩ := List.getElem?_eq_some_iff.mp hfield
    have hi : i < slots.length := by
      rw [h.length]
      exact hlt
    dsimp only at hargs hfield ⊢
    set args := (dependenciesAt table i).filterMap fun dep => slots[dep]?.getD none with hdef
    have hset : ∀ {j}, slotAt (slots.set i (some (rule.evaluate args))) j =
        if i = j then some (rule.evaluate args) else slotAt slots j := slotAt_set hi
    -- A value that was there satisfies its equation, so it is the one that is put there now.
    have hkeep : ∀ {j v}, slotAt slots j = some v →
        slotAt (slots.set i (some (rule.evaluate args))) j = some v := by
      intro j v hv
      rw [hset]
      split
      · next hij =>
        subst hij
        obtain ⟨args', hargs', rfl⟩ := h.equation hfield hrule hv
        rw [hargs.unique hargs']
      · exact hv
    have hkeeps : ∀ {positions vs}, Values slots positions vs →
        Values (slots.set i (some (rule.evaluate args))) positions vs :=
      fun hvs => hvs.imp fun _ _ hv => hkeep hv
    refine ⟨⟨by rw [List.length_set, h.length], fun hv => hkeep (h.kept hv), ?_, ?_⟩, hkeep, ?_⟩
    · intro j field' rule' v hfield' hrule' hv
      rw [hset] at hv
      split at hv
      · next hij =>
        subst hij
        cases hv
        rw [hfield] at hfield'
        cases hfield'
        rw [hrule] at hrule'
        cases hrule'
        exact ⟨args, hkeeps hargs, rfl⟩
      · obtain ⟨args', hargs', heq⟩ := h.equation hfield' hrule' hv
        exact ⟨args', hkeeps hargs', heq⟩
    · intro j v hv
      rw [hset] at hv
      split at hv
      · next hij =>
        subst hij
        cases hv
        exact hG hfield hrule (hargs.imp fun _ _ hv => h.good hv)
      · exact h.good hv
    · intro _ _ _
      rw [hset, if_pos rfl]
      rfl
  · next hnone =>
    refine ⟨h, id, ?_⟩
    intro field hfield hcomp
    rw [Field.isComputed] at hcomp
    obtain ⟨rule, hrule⟩ := Option.isSome_iff_exists.mp hcomp
    simp [hfield, hrule] at hnone

/-! ### Whole evaluations -/

/-- What a step of an order depends on was computed in a step before, or was supplied from the
start. -/
theorem Table.isSome_of_mem_dependenciesAt (htable : p.Table t table) {before rest : List Nat}
    {i : Nat} (hord : Graph.Ordered (computedDependencies table) (before ++ i :: rest))
    (hsupplied : ∀ i, i < p.fields.length → ¬ IsComputedAt table i → (slotAt slots i).isSome)
    (hbefore : ∀ i ∈ before, IsComputedAt table i → (slotAt slots i).isSome) :
    ∀ j ∈ Product.dependenciesAt table i, (slotAt slots j).isSome := by
  intro j hj
  by_cases hcomp : IsComputedAt table j
  · exact hbefore j (hord before i rest rfl j (List.mem_filter.mpr ⟨hj, hcomp⟩)) hcomp
  · exact hsupplied j (htable.lt_of_mem_dependenciesAt hj) hcomp

/-- An evaluation in an order that puts dependencies first gives every computed field of
the order its value. -/
theorem Progress.run (htable : p.Table t table) (hG : Respects p table G) {rest : List Nat} :
    ∀ {before : List Nat} {slots : List (Option Value)}, Progress p table G supplied slots →
      Graph.Ordered (computedDependencies table) (before ++ rest) →
      (∀ i, i < p.fields.length → ¬ IsComputedAt table i → (slotAt slots i).isSome) →
      (∀ i ∈ before, IsComputedAt table i → (slotAt slots i).isSome) →
      ∃ slots', slots' = (rest.map fun i => ⟨i, dependenciesAt table i⟩).foldl p.computeStep slots ∧
        Progress p table G supplied slots' ∧
        (∀ i, i < p.fields.length → ¬ IsComputedAt table i → (slotAt slots' i).isSome) ∧
        ∀ i ∈ before ++ rest, IsComputedAt table i → (slotAt slots' i).isSome := by
  -- `before` are the steps done. What they depend on stands before them, so it has a value.
  induction rest with
  | nil =>
    intro before slots h _ hsupplied hbefore
    exact ⟨slots, rfl, h, hsupplied, by simpa using hbefore⟩
  | cons i rest ih =>
    intro before slots h hord hsupplied hbefore
    obtain ⟨hprogress, hkeep, hdone⟩ :=
      h.step hG (htable.isSome_of_mem_dependenciesAt hord hsupplied hbefore)
    -- No step takes a value away.
    have hsome : ∀ {j}, (slotAt slots j).isSome →
        (slotAt (p.computeStep slots ⟨i, dependenciesAt table i⟩) j).isSome := by
      intro j hj
      obtain ⟨v, hv⟩ := Option.isSome_iff_exists.mp hj
      rw [hkeep hv]
      rfl
    rw [List.append_cons] at hord ⊢
    refine ih hprogress hord (fun j hlt hcomp => hsome (hsupplied j hlt hcomp)) ?_
    intro j hj hcomp
    rcases List.mem_append.mp hj with hj | hj
    · exact hsome (hbefore j hj hcomp)
    · rw [List.mem_singleton.mp hj] at hcomp ⊢
      obtain ⟨field, hfield⟩ := htable.exists_of_isComputedAt hcomp
      exact hdone field hfield ((htable.isSome_iff hfield).symm.trans hcomp)

/-- The slots before the evaluation: those of computed fields are empty, and the others
hold good values. -/
def Supplied (p : Product) (G : Field → Value → Prop) (slots : List (Option Value)) : Prop :=
  List.Forall₂ (fun field slot =>
    if field.isComputed then slot = none else ∃ v, slot = some v ∧ G field v) p.fields slots

theorem Supplied.mono {G G' : Field → Value → Prop} (h : ∀ field v, G field v → G' field v)
    (hslots : p.Supplied G slots) : p.Supplied G' slots := by
  refine hslots.imp fun field slot hslot => ?_
  split at hslot
  · next hcomp => rw [if_pos hcomp, hslot]
  · next hcomp =>
    obtain ⟨v, hv, hgood⟩ := hslot
    rw [if_neg hcomp]
    exact ⟨v, hv, h field v hgood⟩

/-- The rules make good values of good values of the fields they depend on. -/
def Preserves (p : Product) (G : Field → Value → Prop) : Prop :=
  ∀ field ∈ p.fields, ∀ rule, field.rule? = some rule → ∀ args,
    List.Forall₂ (fun dep arg => ∃ sibling ∈ p.fields, sibling.name = dep ∧ G sibling arg)
      rule.dependencies args → G field (rule.evaluate args)

/-- Every computed field holds what its rule makes of the values of the fields that it
depends on. -/
def Satisfied (p : Product) (entries : List (String × Value)) : Prop :=
  ∀ field ∈ p.fields, ∀ rule, field.rule? = some rule →
    ∃ args, List.Forall₂ (fun dep arg => entries.lookup dep = some arg) rule.dependencies args ∧
      entries.lookup field.name = some (rule.evaluate args)

/-- What holds of fields, as what holds of values at positions. -/
def At (p : Product) (G : Field → Value → Prop) (i : Nat) (v : Value) : Prop :=
  ∃ field, p.fields[i]? = some field ∧ G field v

theorem progress_of_supplied {G : Field → Value → Prop} (hslots : p.Supplied G slots) :
    Progress p table (p.At G) slots slots := by
  -- Only fields that are not computed have a value yet, so there is no equation to check.
  have hat : ∀ {i v}, slotAt slots i = some v →
      ∃ field, p.fields[i]? = some field ∧ field.isComputed = false ∧ G field v := by
    intro i v hv
    have hslot : slots[i]? = some (some v) := by
      rw [slotAt] at hv
      cases hs : slots[i]? with
      | none => simp [hs] at hv
      | some slot =>
        rw [hs] at hv
        exact congrArg some hv
    obtain ⟨hlt, -⟩ := List.getElem?_eq_some_iff.mp hslot
    have hlt : i < p.fields.length := hslots.length_eq ▸ hlt
    have hfield : p.fields[i]? = some p.fields[i] := List.getElem?_eq_getElem hlt
    have hrel := forall₂_getElem? hslots hfield hslot
    split at hrel
    · cases hrel
    · next hcomp =>
      obtain ⟨v', hv', hgood⟩ := hrel
      cases hv'
      exact ⟨_, hfield, by simpa using hcomp, hgood⟩
  refine ⟨hslots.length_eq.symm, id, ?_, ?_⟩
  · intro i field rule v hfield hrule hv
    obtain ⟨field', hfield', hcomp, -⟩ := hat hv
    rw [hfield] at hfield'
    cases hfield'
    simp [Field.isComputed, hrule] at hcomp
  · intro i v hv
    obtain ⟨field, hfield, -, hgood⟩ := hat hv
    exact ⟨field, hfield, hgood⟩

theorem Table.respects (h : p.Table t table) {G : Field → Value → Prop} (hG : p.Preserves G) :
    Respects p table (p.At G) := by
  intro i field rule args hfield hrule hargs
  refine ⟨field, hfield, hG field (List.mem_of_getElem? hfield) rule hrule args ?_⟩
  refine forall₂_trans ?_ (h.dependenciesAt hfield hrule) hargs
  rintro dep j arg hdep ⟨sibling, hsibling, hgood⟩
  rw [fieldNames, List.getElem?_map, hsibling] at hdep
  cases hdep
  exact ⟨sibling, List.mem_of_getElem? hsibling, rfl, hgood⟩

theorem Table.isSome_of_supplied (h : p.Table t table) {G : Field → Value → Prop}
    (hslots : p.Supplied G slots) {i : Nat} (hlt : i < p.fields.length)
    (hcomp : ¬ IsComputedAt table i) : (slotAt slots i).isSome := by
  have hlt' : i < slots.length := hslots.length_eq ▸ hlt
  have hrel := forall₂_getElem? hslots (List.getElem?_eq_getElem hlt)
    (List.getElem?_eq_getElem hlt')
  rw [IsComputedAt, h.isSome_iff (List.getElem?_eq_getElem hlt)] at hcomp
  rw [if_neg hcomp] at hrel
  obtain ⟨v, hv, -⟩ := hrel
  rw [slotAt, List.getElem?_eq_getElem hlt', Option.getD_some, hv]
  rfl

/-- The evaluation of the first steps of an order. -/
theorem Table.run (htable : p.Table t table) {G : Field → Value → Prop}
    (hslots : p.Supplied G slots) (hG : p.Preserves G) {first rest : List Nat}
    (hord : Graph.Ordered (computedDependencies table) (first ++ rest)) :
    ∃ slots', slots' = (first.map fun i =>
        ⟨i, Product.dependenciesAt table i⟩).foldl p.computeStep slots ∧
      Progress p table (p.At G) slots slots' ∧
      (∀ i, i < p.fields.length → ¬ IsComputedAt table i → (slotAt slots' i).isSome) ∧
      ∀ i ∈ first, IsComputedAt table i → (slotAt slots' i).isSome := by
  have hord : Graph.Ordered (computedDependencies table) ([] ++ first) := hord.of_append
  exact Progress.run htable (htable.respects hG) (progress_of_supplied hslots) hord
    (fun _ hlt hcomp => htable.isSome_of_supplied hslots hlt hcomp) (by simp)

/-- Once all computed fields of an order are evaluated, every field has a value. -/
theorem Table.exists_slotAt (htable : p.Table t table) {order : List Nat}
    (hall : ∀ i ∈ computedPositions table, i ∈ order)
    (hsupplied : ∀ i, i < p.fields.length → ¬ IsComputedAt table i → (slotAt slots i).isSome)
    (hdone : ∀ i ∈ order, IsComputedAt table i → (slotAt slots i).isSome) {i : Nat}
    {field : Field} (hfield : p.fields[i]? = some field) : ∃ v, slotAt slots i = some v := by
  obtain ⟨hlt, -⟩ := List.getElem?_eq_some_iff.mp hfield
  refine Option.isSome_iff_exists.mp ?_
  by_cases hcomp : IsComputedAt table i
  · refine hdone i (hall i (List.mem_filter.mpr ⟨List.mem_range.mpr ?_, hcomp⟩)) hcomp
    rwa [← htable.length_eq]
  · exact hsupplied i hlt hcomp

/-! ### Finished fields -/

/-- The values of the slots under the names of their fields. -/
def entriesOf (p : Product) (slots : List (Option Value)) : List (String × Value) :=
  List.zipWith (fun field slot => (field.name, slot.getD .null)) p.fields slots

theorem getElem?_entriesOf {i : Nat} {field : Field} {v : Value}
    (hfield : p.fields[i]? = some field) (hv : slotAt slots i = some v) :
    (p.entriesOf slots)[i]? = some (field.name, v) := by
  rw [slotAt] at hv
  rw [entriesOf, List.getElem?_zipWith, hfield]
  cases hslot : slots[i]? with
  | none => simp [hslot] at hv
  | some slot =>
    rw [hslot, Option.getD_some] at hv
    rw [hv]
    rfl

theorem names_entriesOf (h : slots.length = p.fields.length) :
    (p.entriesOf slots).map (·.1) = p.fieldNames := by
  rw [entriesOf, fieldNames]
  generalize p.fields = fields at h
  induction fields generalizing slots with
  | nil => rfl
  | cons field fields ih =>
    cases slots with
    | nil => cases h
    | cons slot slots => simp [ih (Nat.succ.inj h)]

/-- Names are distinct, so look-up by name finds the value at the position. -/
theorem lookup_entriesOf (hnodup : p.fieldNames.Nodup) (h : slots.length = p.fields.length)
    {i : Nat} {field : Field} {v : Value} (hfield : p.fields[i]? = some field)
    (hv : slotAt slots i = some v) : (p.entriesOf slots).lookup field.name = some v :=
  lookup_eq_some_of_mem (names_entriesOf h ▸ hnodup)
    (List.mem_of_getElem? (getElem?_entriesOf hfield hv))

/-- The values at the positions of a rule's dependencies are found under their names. -/
theorem Table.lookup_dependencies (htable : p.Table t table) (hnodup : p.fieldNames.Nodup)
    (hlength : slots.length = p.fields.length) {i : Nat} {field : Field} {rule : Computed}
    {args : List Value} (hfield : p.fields[i]? = some field) (hrule : field.rule? = some rule)
    (hargs : Values slots (Product.dependenciesAt table i) args) :
    List.Forall₂ (fun dep arg => (p.entriesOf slots).lookup dep = some arg)
      rule.dependencies args := by
  refine forall₂_trans ?_ (htable.dependenciesAt hfield hrule) hargs
  intro dep j arg hdep harg
  rw [fieldNames, List.getElem?_map] at hdep
  obtain ⟨sibling, hsibling, rfl⟩ := Option.map_eq_some_iff.mp hdep
  exact lookup_entriesOf hnodup hlength hsibling harg

section

variable {G : Field → Value → Prop} (h : Progress p table (p.At G) supplied slots)
  (hsome : ∀ {i : Nat} {field : Field}, p.fields[i]? = some field → ∃ v, slotAt slots i = some v)
include h hsome

theorem Progress.good_entriesOf :
    List.Forall₂ (fun field entry => entry.1 = field.name ∧ G field entry.2) p.fields
      (p.entriesOf slots) := by
  have hlen : p.fields.length = (p.entriesOf slots).length := by
    rw [entriesOf, List.length_zipWith, h.length, Nat.min_self]
  refine List.forall₂_of_length_eq_of_get hlen ?_
  intro i hlt hlt'
  have hfield : p.fields[i]? = some p.fields[i] := List.getElem?_eq_getElem hlt
  obtain ⟨v, hv⟩ := hsome hfield
  have hentry := getElem?_entriesOf hfield hv
  rw [List.getElem?_eq_getElem hlt'] at hentry
  obtain ⟨field, hfield', hgood⟩ := h.good hv
  rw [hfield] at hfield'
  cases hfield'
  simp only [List.get_eq_getElem, Option.some.inj hentry]
  exact ⟨trivial, hgood⟩

theorem Progress.satisfied_entriesOf (htable : p.Table t table) (hnodup : p.fieldNames.Nodup) :
    p.Satisfied (p.entriesOf slots) := by
  intro field hmem rule hrule
  obtain ⟨i, hfield⟩ := List.getElem?_of_mem hmem
  obtain ⟨v, hv⟩ := hsome hfield
  obtain ⟨args, hargs, rfl⟩ := h.equation hfield hrule hv
  exact ⟨args, htable.lookup_dependencies hnodup h.length hfield hrule hargs,
    lookup_entriesOf hnodup h.length hfield hv⟩

end

/-- The finished fields of a product: all of them are good, those supplied are as they
were, and the computed ones hold what their rules make of them. -/
theorem complete_spec {plan : List ComputeStep} (hplan : p.plan t = .ok plan)
    {G : Field → Value → Prop} (hslots : p.Supplied G slots) (hG : p.Preserves G) :
    List.Forall₂ (fun field entry => entry.1 = field.name ∧ G field entry.2) p.fields
        (p.complete plan slots) ∧
      p.Satisfied (p.complete plan slots) ∧
      ∀ {i : Nat} {field : Field} {v : Value}, p.fields[i]? = some field →
        slots[i]? = some (some v) →
        (p.complete plan slots)[i]? = some (field.name, v) := by
  obtain ⟨hnodup, table, order, htable, hord, hall, rfl⟩ := of_plan_eq_ok hplan
  have hord : Graph.Ordered (computedDependencies table) (order ++ []) := by simpa using hord
  obtain ⟨slots', hslots', hprogress, hsupplied, hdone⟩ := htable.run hslots hG hord
  have hsome : ∀ {i : Nat} {field : Field}, p.fields[i]? = some field →
      ∃ v, slotAt slots' i = some v := fun hfield =>
    htable.exists_slotAt hall hsupplied hdone hfield
  have hcomplete : p.complete (order.map fun i => ⟨i, dependenciesAt table i⟩) slots =
      p.entriesOf slots' := by
    rw [complete, ← hslots']
    rfl
  rw [hcomplete]
  refine ⟨hprogress.good_entriesOf hsome, hprogress.satisfied_entriesOf hsome htable hnodup, ?_⟩
  intro i field v hfield hslot
  refine getElem?_entriesOf hfield (hprogress.kept ?_)
  rw [slotAt, hslot]
  rfl

/-- The finished fields have the names of the fields. -/
theorem names_complete {plan : List ComputeStep} (hplan : p.plan t = .ok plan)
    {G : Field → Value → Prop} (hslots : p.Supplied G slots) :
    (p.complete plan slots).map (·.1) = p.fieldNames := by
  obtain ⟨hentries, -, -⟩ :=
    complete_spec hplan (hslots.mono fun _ _ _ => trivial) (fun _ _ _ _ _ _ => trivial)
  rw [fieldNames, ← List.forall₂_eq_eq_eq, List.forall₂_map_left_iff, List.forall₂_map_right_iff]
  exact hentries.flip.imp fun _ _ h => h.1

/-- A field that is not computed holds the value that was supplied for it. -/
theorem exists_lookup_complete {plan : List ComputeStep} (hplan : p.plan t = .ok plan)
    {G : Field → Value → Prop} (hslots : p.Supplied G slots) {field : Field}
    (hmem : field ∈ p.fields) (hcomp : field.isComputed = false) :
    ∃ v, (p.complete plan slots).lookup field.name = some v ∧ G field v := by
  -- Only the names and places of the fields count here, not what the computed ones hold.
  have hany : p.Supplied (fun _ _ => True) slots := hslots.mono fun _ _ _ => trivial
  obtain ⟨-, -, hkept⟩ := complete_spec hplan hany (fun _ _ _ _ _ _ => trivial)
  obtain ⟨i, hfield⟩ := List.getElem?_of_mem hmem
  obtain ⟨hlt, -⟩ := List.getElem?_eq_some_iff.mp hfield
  have hlt' : i < slots.length := hslots.length_eq ▸ hlt
  have hslot : slots[i]? = some slots[i] := List.getElem?_eq_getElem hlt'
  have hsupplied := forall₂_getElem? hslots hfield hslot
  rw [if_neg (by simp [hcomp])] at hsupplied
  obtain ⟨v, hv, hgood⟩ := hsupplied
  rw [hv] at hslot
  refine ⟨v, lookup_eq_some_of_mem ?_ (List.mem_of_getElem? (hkept hfield hslot)), hgood⟩
  rw [names_complete hplan hslots]
  exact (of_plan_eq_ok hplan).1

/-! ### Calls of rules -/

/-- The values that a step finds for its dependencies. -/
def arguments (slots : List (Option Value)) (step : ComputeStep) : List Value :=
  step.dependencies.filterMap fun dep => slots[dep]?.getD none

/-- A step calls the rule of its field with the values that it finds. -/
theorem computeStep_eq {step : ComputeStep} {field : Field} {rule : Computed}
    (hfield : p.fields[step.field]? = some field) (hrule : field.rule? = some rule) :
    p.computeStep slots step =
      slots.set step.field (some (rule.evaluate (arguments slots step))) := by
  rw [computeStep, hfield, Option.bind_some, hrule]
  rfl

/-- Every call of a rule gets the values that the finished fields hold for the dependencies of
the rule, one for each in their order; and no field is left without a value. -/
structure Evaluates (p : Product) (plan : List ComputeStep) (slots : List (Option Value)) :
    Prop where
  call : ∀ {before step after field rule}, plan = before ++ step :: after →
    p.fields[step.field]? = some field → field.rule? = some rule →
    List.Forall₂ (fun dep arg => (p.complete plan slots).lookup dep = some arg) rule.dependencies
      (arguments (before.foldl p.computeStep slots) step)
  filled : ∀ slot ∈ plan.foldl p.computeStep slots, slot.isSome = true

theorem evaluates_of_plan {plan : List ComputeStep} (hplan : p.plan t = .ok plan)
    {G : Field → Value → Prop} (hslots : p.Supplied G slots) : p.Evaluates plan slots := by
  obtain ⟨hnodup, table, order, htable, hord, hall, rfl⟩ := of_plan_eq_ok hplan
  have hany : p.Supplied (fun _ _ => True) slots := hslots.mono fun _ _ _ => trivial
  have hpreserves : p.Preserves fun _ _ => True := fun _ _ _ _ _ _ => trivial
  constructor
  · intro before step after field rule hsplit hfield hrule
    obtain ⟨first, rest, rfl, rfl, hrest⟩ := List.map_eq_append_iff.mp hsplit
    obtain ⟨i, last, rfl, rfl, rfl⟩ := List.map_eq_cons_iff.mp hrest
    -- The values before the call, and from there on to the end.
    obtain ⟨mid, hmid, hprogress, hsupplied, hdone⟩ := htable.run hany hpreserves hord
    have hargs : Values mid (dependenciesAt table i) (arguments mid ⟨i, dependenciesAt table i⟩) :=
      values_filterMap (htable.isSome_of_mem_dependenciesAt hord hsupplied hdone)
    have hfrom : Progress p table (p.At fun _ _ => True) mid mid :=
      ⟨hprogress.length, id, hprogress.equation, hprogress.good⟩
    obtain ⟨final, hfinal, hrun, -, -⟩ :=
      Progress.run htable (htable.respects hpreserves) hfrom hord hsupplied hdone
    have hcomplete : p.complete ((first ++ i :: last).map fun i => ⟨i, dependenciesAt table i⟩)
        slots = p.entriesOf final := by
      rw [complete, List.map_append, List.foldl_append, ← hmid, ← hfinal]
      rfl
    rw [hcomplete, ← hmid]
    exact htable.lookup_dependencies hnodup hrun.length hfield hrule
      (hargs.imp fun _ _ harg => hrun.kept harg)
  · have hord : Graph.Ordered (computedDependencies table) (order ++ []) := by simpa using hord
    obtain ⟨slots', hslots', hprogress, hsupplied, hdone⟩ := htable.run hany hpreserves hord
    rw [← hslots']
    intro slot hmem
    obtain ⟨i, hslot⟩ := List.getElem?_of_mem hmem
    obtain ⟨hlt, -⟩ := List.getElem?_eq_some_iff.mp hslot
    obtain ⟨v, hv⟩ := htable.exists_slotAt hall hsupplied hdone
      (List.getElem?_eq_getElem (hprogress.length ▸ hlt))
    rw [slotAt, hslot, Option.getD_some] at hv
    rw [hv]
    rfl

end Product

end TypedTree
