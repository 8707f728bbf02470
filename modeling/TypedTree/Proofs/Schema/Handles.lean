/-
Handles, names and bodies over whole runs.

Main statements:

* `Shape.mentioned` — the types that a body speaks of;
* `Builder.Change` — all that a call can do to a schema: nothing, one more type under the next
  handle, or a body for a type that has none or is given it by hand; `Builder.Operation.change` —
  every call is one of these;
* `Builder.Coherent` — what all calls keep: names are distinct, and bodies speak of types that are
  there;
* `Builder.History` — calls one after the other, with the handles that they give; `History.frame`,
  `History.distinct_eq_handles` and their neighbours — what runs keep;
* `Builder.handles_of_history` — over a whole run and in the registry at its end, handles count the
  declarations, names and handles belong to each other, and bodies change by hand only.

Design notes: `Calls` asks for free names, so that names tell what structural types mean. Here names
are of any kind: a structural name may be declared by hand, and any type may be given any body.
-/
import TypedTree.Proofs.Schema.Acyclicity
import TypedTree.Proofs.Schema.Calls
import TypedTree.Proofs.Synthesis.Frame

namespace TypedTree

/-- The types that a body speaks of: those of items and fields, the inside of a nullable,
alternatives, and the probe, tests and targets of an inspect shape. -/
def Shape.mentioned : Shape → List TypeId
  | array item => [item]
  | nullable inner => [inner]
  | union alternatives => alternatives
  | inspect i => i.probe :: i.arms.flatMap fun arm => [arm.test, arm.target]
  | product p => p.fields.map (·.type)
  | primitive _ | nameSet => []

namespace Builder

namespace Operation

/-- The handles that a call is given. -/
def arguments : Operation → List TypeId
  | declare _ | primitive _ | nameSet => []
  | arrayOf item => [item]
  | nullable inner => [inner]
  | unionOf members => members
  | define id shape => id :: shape.mentioned
  | named _ shape => shape.mentioned

/-- The body that a call gives by hand to the type of its handle. -/
def body? : Operation → Option Shape
  | define _ shape | named _ shape => some shape
  | declare _ | primitive _ | arrayOf _ | nullable _ | nameSet | unionOf _ => none

end Operation

variable {b b' b'' : Builder} {op : Operation} {id : TypeId} {log : List (Operation × TypeId)}

/-! ### One call -/

/-- What a call can do to a schema, with the handle it gives. -/
inductive Change (b : Builder) (op : Operation) : TypeId → Builder → Prop
  | same {id : TypeId} (known : id.index < b.size) : Change b op id b
  | appended {d : Declaration} (new : b.find? d.name = none)
      (mentioned : ∀ shape, d.body = some shape → ∀ part ∈ shape.mentioned, part ∈ op.arguments) :
      Change b op ⟨b.size⟩ (b.append d)
  | defined {id : TypeId} {shape : Shape} (known : id.index < b.size)
      (due : b.body? id = none ∨ op.body? = some shape)
      (mentioned : ∀ part ∈ shape.mentioned, part ∈ op.arguments) :
      Change b op id (Builder.define id shape b).2

/-- A structural type is there, or is new, or was waiting for its body. -/
theorem change_intern {name : String} {shape : Shape}
    (hmentioned : ∀ part ∈ shape.mentioned, part ∈ op.arguments)
    (hrun : intern name shape b = (id, b')) : Change b op id b' := by
  cases hfind : b.find? name with
  | none =>
    rw [intern_of_find?_eq_none hfind] at hrun
    cases hrun
    refine .appended hfind fun shape' hshape' => ?_
    cases hshape'
    exact hmentioned
  | some found =>
    have hfound : found.index < b.size := (find?_eq_some hfind).1
    cases hbody : b.body? found with
    | some shape' =>
      rw [intern_of_find?_eq_some hfind hbody] at hrun
      cases hrun
      exact .same hfound
    | none =>
      rw [intern_of_body?_eq_none hfind hbody] at hrun
      cases hrun
      exact .defined hfound (.inl hbody) hmentioned

/-- Every call does one of three things. -/
theorem Operation.change (hknown : ∀ part ∈ op.arguments, part.index < b.size)
    (hrun : op.run b = (id, b')) : Change b op id b' := by
  cases op with
  | declare name =>
    rw [run] at hrun
    cases hfind : b.find? name with
    | some found =>
      rw [declare_of_find? hfind] at hrun
      cases hrun
      exact .same (find?_eq_some hfind).1
    | none =>
      rw [declare_of_find?_eq_none hfind] at hrun
      cases hrun
      exact .appended hfind fun _ h => by cases h
  | primitive kind => exact change_intern (by simp [Shape.mentioned]) hrun
  | arrayOf item =>
    have hitem : ∀ part ∈ (Shape.array item).mentioned, part ∈ (arrayOf item).arguments :=
      fun _ h => h
    exact change_intern hitem hrun
  | nullable inner =>
    have hinner : ∀ part ∈ (Shape.nullable inner).mentioned, part ∈ (nullable inner).arguments :=
      fun _ h => h
    -- What takes `null` already is handed back, and so is the only member of a union below.
    rcases nullable_cases inner b with ⟨hself, -⟩ | hintern
    · cases hself.symm.trans hrun
      exact .same (hknown _ (List.mem_singleton.mpr rfl))
    · exact change_intern hinner (hintern.symm.trans hrun)
  | nameSet => exact change_intern (by simp [Shape.mentioned]) hrun
  | unionOf members =>
    have hmem : ∀ part, part ∈ distinct members ↔ part ∈ members := (distinct_spec members).2
    have hmembers : ∀ part ∈ (Shape.union (distinct members)).mentioned,
        part ∈ (unionOf members).arguments := fun part => (hmem part).mp
    rcases unionOf_cases members b with ⟨single, hd, hself⟩ | ⟨-, hintern⟩
    · cases hself.symm.trans hrun
      exact .same (hknown _ ((hmem _).mp (hd ▸ List.mem_singleton.mpr rfl)))
    · exact change_intern hmembers (hintern.symm.trans hrun)
  | define found shape =>
    cases hrun
    exact .defined (hknown _ List.mem_cons_self) (.inr rfl) fun _ => List.mem_cons_of_mem _
  | named name shape =>
    rw [run] at hrun
    cases hfind : b.find? name with
    | some found =>
      rw [named_of_declare (declare_of_find? hfind)] at hrun
      cases hrun
      exact .defined (find?_eq_some hfind).1 (.inr rfl) fun _ h => h
    | none =>
      rw [named_of_declare (declare_of_find?_eq_none hfind), define_append] at hrun
      cases hrun
      refine .appended hfind fun shape' hshape' => ?_
      cases hshape'
      exact fun _ h => h

/-- Types are only appended, and none loses its body. -/
theorem Change.frame (h : Change b op id b') : Frame (fun _ => False) b b' := by
  cases h with
  | same => exact .refl b
  | appended => exact frame_append _
  | defined => exact frame_define (fun _ _ => not_false) _

/-- The handle that a call gives is one that is there, or the next one. -/
theorem Change.handles_eq (h : Change b op id b') :
    (if id ∈ handles b.size then handles b.size else handles b.size ++ [id]) = handles b'.size := by
  cases h with
  | same known => rw [if_pos (Inspect.mem_handles_iff.mpr known)]
  | appended =>
    have hnew : (⟨b.size⟩ : TypeId) ∉ handles b.size :=
      fun hmem => Nat.lt_irrefl _ (Inspect.mem_handles_iff.mp hmem)
    rw [if_neg hnew, size_append, handles, handles, List.range_succ, List.map_append]
    rfl
  | defined known => rw [if_pos (Inspect.mem_handles_iff.mpr known), size_define]

/-- A body stays, unless the call gives another one by hand to that type. -/
theorem Change.body_cases (h : Change b op id b') {id' : TypeId} {shape : Shape}
    (hbody : b.body? id' = some shape) : ∃ shape', b'.body? id' = some shape' ∧
      (shape' = shape ∨ id = id' ∧ op.body? = some shape') := by
  have hid' : id'.index < b.size := lt_size_of_body? hbody
  cases h with
  | same => exact ⟨shape, hbody, .inl rfl⟩
  | appended => exact ⟨shape, by rwa [body?, declaration?_append_of_lt hid'], .inl rfl⟩
  | @defined _ shape' _ due =>
    by_cases heq : id = id'
    · subst heq
      refine ⟨shape', body?_define_self hid', .inr ⟨rfl, due.resolve_left fun hnone => ?_⟩⟩
      rw [hnone] at hbody
      cases hbody
    · exact ⟨shape, (body?_define_of_ne heq).trans hbody, .inl rfl⟩

/-! ### What calls keep -/

/-- Names are distinct, and bodies speak of types that are there. -/
structure Coherent (b : Builder) : Prop where
  nodup : b.DistinctNames
  inside : ∀ {id shape}, b.body? id = some shape → ∀ part ∈ shape.mentioned, part.index < b.size

theorem coherent_empty : ({} : Builder).Coherent where
  nodup hid := absurd hid (Nat.not_lt_zero _)
  inside hbody := absurd (lt_size_of_body? hbody) (Nat.not_lt_zero _)

theorem Change.coherent (hknown : ∀ part ∈ op.arguments, part.index < b.size)
    (h : Change b op id b') (hb : b.Coherent) : b'.Coherent := by
  have hsize : b.size ≤ b'.size := h.frame.size
  cases h with
  | same => exact hb
  | @appended d new mentioned =>
    refine ⟨DistinctNames.append hb.nodup new, fun {id' shape} hbody part hpart => ?_⟩
    refine Nat.lt_of_lt_of_le ?_ hsize
    rcases lt_or_eq_of_lt_size_append (lt_size_of_body? hbody) with hold | rfl
    · rw [body?, declaration?_append_of_lt hold] at hbody
      exact hb.inside hbody part hpart
    · rw [body?_append_size] at hbody
      exact hknown part (mentioned shape hbody part hpart)
  | @defined _ shape _ _ mentioned =>
    refine ⟨DistinctNames.define hb.nodup, fun {id' shape'} hbody part hpart => ?_⟩
    refine Nat.lt_of_lt_of_le ?_ hsize
    by_cases heq : id = id'
    · subst heq
      have hid := lt_size_of_body? hbody
      rw [size_define] at hid
      rw [body?_define_self hid] at hbody
      cases hbody
      exact hknown part (mentioned part hpart)
    · rw [body?_define_of_ne heq] at hbody
      exact hb.inside hbody part hpart

/-! ### Runs -/

/-- Calls one after the other, each with the handle it gave. Every call is given handles of types
that are there. -/
inductive History : Builder → List (Operation × TypeId) → Builder → Prop
  | nil (b : Builder) : History b [] b
  | cons {b b' b'' : Builder} {op : Operation} {id : TypeId} {log : List (Operation × TypeId)}
      (known : ∀ part ∈ op.arguments, part.index < b.size) (run : op.run b = (id, b'))
      (rest : History b' log b'') : History b ((op, id) :: log) b''

theorem History.coherent (h : History b log b') (hb : b.Coherent) : b'.Coherent := by
  induction h with
  | nil => exact hb
  | cons known run _ ih => exact ih ((Operation.change known run).coherent known hb)

theorem History.frame (h : History b log b') : Frame (fun _ => False) b b' := by
  induction h with
  | nil b => exact .refl b
  | cons known run _ ih => exact (Operation.change known run).frame.trans ih

/-- The handles that are given, in the order in which they first are, count the types. -/
theorem History.distinct_eq_handles (h : History {} log b) :
    distinct (log.map (·.2)) = handles b.size := by
  -- The invariant starts with the types that are there.
  have hrun : ∀ {b b' : Builder} {log : List (Operation × TypeId)}, History b log b' →
      (log.map (·.2)).foldl (fun seen id => if id ∈ seen then seen else seen ++ [id])
        (handles b.size) = handles b'.size := by
    intro b b' log h
    induction h with
    | nil => rfl
    | cons known run _ ih =>
      rw [List.map_cons, List.foldl_cons, (Operation.change known run).handles_eq, ih]
  exact hrun h

/-- A body is there in the end, or one that was given by hand in its place. -/
theorem History.body_cases (h : History b log b') {shape : Shape} (hbody : b.body? id = some shape) :
    ∃ shape', b'.body? id = some shape' ∧
      (shape' = shape ∨ ∃ op, (op, id) ∈ log ∧ op.body? = some shape') := by
  induction h generalizing shape with
  | nil => exact ⟨shape, hbody, .inl rfl⟩
  | @cons _ _ _ op _ _ known run _ ih =>
    obtain ⟨between, hbetween, hfirst⟩ := (Operation.change known run).body_cases hbody
    obtain ⟨last, hlast, hrest⟩ := ih hbetween
    refine ⟨last, hlast, ?_⟩
    rcases hrest with rfl | ⟨op', hmem, hop'⟩
    · rcases hfirst with rfl | ⟨rfl, hop⟩
      · exact .inl rfl
      · exact .inr ⟨op, List.mem_cons_self, hop⟩
    · exact .inr ⟨op', List.mem_cons_of_mem _ hmem, hop'⟩

theorem DistinctNames.nodup_names (h : b.DistinctNames) : (b.declarations.map (·.name)).Nodup := by
  have hname : ∀ i (hi : i < b.declarations.length), b.name ⟨i⟩ = b.declarations[i].name := by
    intro i hi
    rw [Builder.name, declaration?, List.getElem?_eq_getElem hi]
    rfl
  refine List.pairwise_map.mpr (List.pairwise_iff_getElem.mpr fun i j hi hj hlt heq => ?_)
  rw [← hname i hi, ← hname j hj] at heq
  cases h hi hj heq
  exact Nat.lt_irrefl _ hlt

/-- What can be relied on over a whole run. Names are distinct; the handles that are given count the
declarations; names and handles belong to each other, and go on to do so whatever is called later;
a body makes room for another one only where that is given by hand. The registry has the same
handles and names, and its bodies speak of its own types. -/
theorem handles_of_history {made more : List (Operation × TypeId)} (hmade : History {} made b)
    (hmore : History b more b') :
    (b.declarations.map (·.name)).Nodup ∧
    distinct (made.map (·.2)) = handles b.size ∧
    (∀ name id, b.find? name = some id ↔ id.index < b.size ∧ b.name id = name) ∧
    b.declarations.map Declaration.heading <+: b'.declarations.map Declaration.heading ∧
    (∀ id, id.index < b.size → b'.name id = b.name id) ∧
    (∀ name id, b.find? name = some id → b'.find? name = some id) ∧
    (∀ id shape, b.body? id = some shape → ∃ shape', b'.body? id = some shape' ∧
      (shape' = shape ∨ ∃ op, (op, id) ∈ more ∧ op.body? = some shape')) ∧
    ∀ reg, b.freeze = .ok reg →
      reg.ids = handles b.size ∧ (∀ id, reg.name id = b.name id) ∧
      (∀ name, reg.find? name = b.find? name) ∧
      ∀ id, ∀ part ∈ (reg.shape id).mentioned, reg.contains part = true := by
  have hb : b.Coherent := hmade.coherent coherent_empty
  have hframe : Frame (fun _ => False) b b' := hmore.frame
  refine ⟨DistinctNames.nodup_names hb.nodup, hmade.distinct_eq_handles,
    fun _ _ => DistinctNames.find?_iff hb.nodup,
    hframe.headings, fun _ => hframe.name, fun _ _ => hframe.find?, fun _ _ => hmore.body_cases,
    fun reg hreg => ⟨?_, name_of_freeze hreg, find?_of_freeze hreg, fun id part hpart => ?_⟩⟩
  · rw [Registry.ids, size_of_freeze hreg, handles]
  · rw [Registry.contains, size_of_freeze hreg, decide_eq_true_iff]
    rw [shape_of_freeze hreg] at hpart
    cases hbody : b.body? id with
    | none =>
      rw [hbody] at hpart
      cases hpart
    | some shape =>
      rw [hbody] at hpart
      exact hb.inside hbody part hpart

/-- Lists of a type that come before it, and the same with `null`: the first `count` of them. -/
def listsFirst (list : Option Shape) (node : Product) (count : Nat) : Builder where
  declarations := List.take count [
    { name := "Array<A>", body := list }, { name := "A", body := some (.product node) },
    { name := "Nullable<Array<A>>", body := some (.nullable ⟨0⟩), structural := true }]

/-- The name of the lists is declared by hand, and gets its body when they are asked for. Then the
type gets a field that holds such lists, or `null`, and the lists are asked for again. -/
theorem handles_of_history_listsFirst : ∃ made more b b' reg, History {} made b ∧
    History b more b' ∧ b.freeze = .ok reg ∧
    made.map (·.2) = [⟨0⟩, ⟨1⟩, ⟨0⟩, ⟨2⟩, ⟨2⟩] ∧ handles b.size = [⟨0⟩, ⟨1⟩, ⟨2⟩] ∧
    distinct (made.map (·.2)) = handles b.size ∧
    (b.find? "A" = some ⟨1⟩ ∧ b'.find? "A" = some ⟨1⟩ ∧ reg.find? "A" = some ⟨1⟩) ∧
    (b.body? ⟨0⟩ = some (.array ⟨1⟩) ∧ b'.body? ⟨0⟩ = some (.array ⟨1⟩)) ∧
    (∃ shape op, b'.body? ⟨1⟩ = some shape ∧ (op, ⟨1⟩) ∈ more ∧ op.body? = some shape) ∧
    reg.shape ⟨2⟩ = .nullable ⟨0⟩ ∧ reg.contains ⟨0⟩ = true := by
  let bare : Product := { source := { tag := "A" }, fields := [] }
  let linked : Product := { source := { tag := "A" }, fields := [.required "next" ⟨2⟩] }
  let lists : Option Shape := some (.array ⟨1⟩)
  have hcall : ∀ (b b' : Builder) {last : Builder} {op : Operation} {id : TypeId}
      {log : List (Operation × TypeId)}, (∀ part ∈ op.arguments, part.index < b.size) →
      op.run b = (id, b') → History b' log last → History b ((op, id) :: log) last :=
    fun _ _ => .cons
  have hmade : History {} [(.declare "Array<A>", ⟨0⟩), (.named "A" (.product bare), ⟨1⟩),
      (.arrayOf ⟨1⟩, ⟨0⟩), (.nullable ⟨0⟩, ⟨2⟩), (.nullable ⟨2⟩, ⟨2⟩)]
      (listsFirst lists bare 3) :=
    hcall {} (listsFirst none bare 1) (by decide) rfl <|
    hcall _ (listsFirst none bare 2) (by decide) rfl <|
    hcall _ (listsFirst lists bare 2) (by decide) rfl <|
    hcall _ (listsFirst lists bare 3) (by decide) rfl <|
    hcall _ (listsFirst lists bare 3) (by decide) rfl <| .nil _
  have hmore : History (listsFirst lists bare 3)
      [(.named "A" (.product linked), ⟨1⟩), (.arrayOf ⟨1⟩, ⟨0⟩)] (listsFirst lists linked 3) :=
    hcall _ (listsFirst lists linked 3) (by decide) rfl <|
    hcall _ (listsFirst lists linked 3) (by decide) rfl <| .nil _
  obtain ⟨reg, hreg, hshape⟩ :=
    exists_freeze_of_check (b := listsFirst lists bare 3) (by decide +kernel)
  obtain ⟨-, hhandles, hnames, -, -, hkept, hbodies, hregistry⟩ := handles_of_history hmade hmore
  obtain ⟨-, -, hfind, hinside⟩ := hregistry reg hreg
  have hA : (listsFirst lists bare 3).find? "A" = some ⟨1⟩ := (hnames "A" ⟨1⟩).mpr ⟨by decide, rfl⟩
  have hnullable : reg.shape ⟨2⟩ = .nullable ⟨0⟩ := hshape ⟨2⟩
  refine ⟨_, _, _, _, reg, hmade, hmore, hreg, rfl, rfl, hhandles,
    ⟨hA, hkept "A" ⟨1⟩ hA, (hfind "A").trans hA⟩, ⟨rfl, ?_⟩, ?_, hnullable, ?_⟩
  · obtain ⟨shape, hbody, rfl | ⟨op, hmem, hop⟩⟩ := hbodies ⟨0⟩ (.array ⟨1⟩) rfl
    · exact hbody
    · -- Of the later calls only that for lists has given this handle.
      obtain rfl : op = .arrayOf ⟨1⟩ := by simpa using hmem
      cases hop
  · exact ⟨.product linked, _, rfl, List.mem_cons_self, rfl⟩
  · exact hinside ⟨2⟩ ⟨0⟩ (hnullable ▸ List.mem_singleton.mpr rfl)

end Builder

end TypedTree
