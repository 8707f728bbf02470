/-
What synthesis leaves alone.

A schema may hold types already when a grammar is put on top of it, and the computation may stop at
any field. Main statements:

* `Builder.Frame` — what stays: types are only appended, no type loses its body, and types of
  certain names keep exactly the one they have;
* `Frames` — a computation leaves a frame, whether it succeeds or fails; `Frames.bind` and its
  neighbours are about computations that are put together;
* `Builder.frame_intern` — a structural type is given out without harm to any other;
* `Grammar.frames_resolve`, `Grammar.frames_define` — so is the type of a descriptor, and a name of
  a grammar gets its body without harm to any other name;
* `Grammar.synthesize_layers` — the frame of synthesis, and what it adds when it succeeds.

Design notes: nothing is asked of the schema, as it is for `Builder.Sound`. Its names need not be
distinct, and a structural name may have been declared by hand, with another body or with none.
-/
import TypedTree.Proofs.Synthesis.Resolution

namespace TypedTree

/-- The part of a declaration that is there from the start. -/
def Declaration.heading (d : Declaration) : String × Bool := (d.name, d.structural)

namespace Builder

variable {keep : String → Prop} {b b' b'' : Builder} {id : TypeId}

theorem isDefined_iff : b.isDefined id = true ↔ ∃ shape, b.body? id = some shape :=
  Option.isSome_iff_exists

/-! ### Frames -/

/-- What stays of a schema: types are only appended, no type loses its body, and those of certain
names keep exactly the one they have. -/
structure Frame (keep : String → Prop) (b b' : Builder) : Prop extends Extends keep b b' where
  headings : b.declarations.map Declaration.heading <+: b'.declarations.map Declaration.heading
  defined : ∀ {id}, b.isDefined id = true → b'.isDefined id = true

theorem Frame.names (h : Frame keep b b') :
    b.declarations.map (·.name) <+: b'.declarations.map (·.name) := by
  have hname : ∀ b : Builder, b.declarations.map (·.name) =
      (b.declarations.map Declaration.heading).map (·.1) := by
    intro b
    rw [List.map_map]
    rfl
  rw [hname, hname]
  exact h.headings.map _

/-- Names keep their handles. -/
theorem Frame.find? (h : Frame keep b b') {name : String} (hfind : b.find? name = some id) :
    b'.find? name = some id := by
  obtain ⟨added, hadded⟩ := h.names
  obtain ⟨i, hi, rfl⟩ := Option.map_eq_some_iff.mp ((find?_eq b name).symm.trans hfind)
  rw [find?_eq, ← hadded, List.findIdx?_append, hi]
  rfl

/-- New names have new handles. -/
theorem Frame.size_le_of_find? (h : Frame keep b b') {name : String} (hnone : b.find? name = none)
    (hfind : b'.find? name = some id) : b.size ≤ id.index := by
  by_contra hlt
  have hid : id.index < b.size := by omega
  refine find?_eq_none hnone hid ?_
  rw [← h.name hid, (find?_eq_some hfind).2]

/-- A name is declared, and its type has a body. -/
def Provides (b : Builder) (name : String) : Prop :=
  ∃ id shape, b.find? name = some id ∧ b.body? id = some shape

theorem Frame.provides (h : Frame keep b b') {name : String} (hname : b.Provides name) :
    b'.Provides name := by
  obtain ⟨id, shape, hfind, hbody⟩ := hname
  obtain ⟨shape', hbody'⟩ := isDefined_iff.mp (h.defined (isDefined_iff.mpr ⟨shape, hbody⟩))
  exact ⟨id, shape', h.find? hfind, hbody'⟩

theorem Frame.refl (b : Builder) : Frame keep b b := ⟨.refl b, List.prefix_refl _, id⟩

theorem Frame.trans (h : Frame keep b b') (h' : Frame keep b' b'') : Frame keep b b'' where
  toExtends := h.toExtends.trans h'.toExtends
  headings := h.headings.trans h'.headings
  defined hid := h'.defined (h.defined hid)

/-! ### One step -/

theorem frame_append (d : Declaration) : Frame keep b (b.append d) where
  toExtends := extends_append d
  headings := by
    rw [append, List.map_append]
    exact List.prefix_append _ _
  defined h := by
    have hext : Extends (fun _ => True) b (b.append d) := extends_append d
    obtain ⟨shape, hshape⟩ := isDefined_iff.mp h
    exact isDefined_iff.mpr ⟨shape, hext.body hshape trivial⟩

theorem headings_define (id : TypeId) (shape : Shape) :
    (define id shape b).2.declarations.map Declaration.heading =
      b.declarations.map Declaration.heading := by
  refine List.ext_getElem? fun i => ?_
  rw [List.getElem?_map, List.getElem?_map, define, List.getElem?_modify]
  by_cases h : id.index = i <;> cases b.declarations[i]? <;> simp [h, Declaration.heading]

/-- A new body does no harm to a type that has none, or whose name need not keep it. -/
theorem frame_define (hid : ∀ shape, b.body? id = some shape → ¬ keep (b.name id))
    (shape : Shape) : Frame keep b (define id shape b).2 where
  size := (extends_define id shape).size
  name := (extends_define id shape).name
  body {id' shape'} hbody hkeep := by
    have hne : id ≠ id' := by
      rintro rfl
      exact hid _ hbody hkeep
    rw [body?_define_of_ne hne, hbody]
  headings := (headings_define id shape).symm ▸ List.prefix_refl _
  defined {id'} h := by
    obtain ⟨shape', hshape'⟩ := isDefined_iff.mp h
    by_cases heq : id = id'
    · subst heq
      exact isDefined_iff.mpr ⟨shape, body?_define_self (lt_size_of_body? hshape')⟩
    · exact isDefined_iff.mpr ⟨shape', (body?_define_of_ne heq).trans hshape'⟩

/-- A name is declared, and all else stays. -/
theorem frame_declare (name : String) : Frame keep b (declare name b).2 := by
  cases hfind : b.find? name with
  | some id =>
    rw [declare_of_find? hfind]
    exact .refl b
  | none =>
    rw [declare_of_find?_eq_none hfind]
    exact frame_append _

theorem find?_declare (name : String) :
    (declare name b).2.find? name = some (declare name b).1 := by
  cases hfind : b.find? name with
  | some id =>
    rw [declare_of_find? hfind]
    exact hfind
  | none =>
    rw [declare_of_find?_eq_none hfind]
    exact find?_append_self hfind

/-- A structural type is given out, and all else stays. -/
theorem frame_intern (name : String) (shape : Shape) : Frame keep b (intern name shape b).2 := by
  cases hfind : b.find? name with
  | none =>
    rw [intern_of_find?_eq_none hfind]
    exact frame_append _
  | some id =>
    cases hbody : b.body? id with
    | some shape' =>
      rw [intern_of_find?_eq_some hfind hbody]
      exact .refl b
    | none =>
      rw [intern_of_body?_eq_none hfind hbody]
      refine frame_define (fun shape' hshape' => ?_) shape
      rw [hbody] at hshape'
      cases hshape'

theorem frame_nullable (inner : TypeId) : Frame keep b (nullable inner b).2 := by
  rcases nullable_cases inner b with ⟨hself, -⟩ | hintern
  · rw [hself]
    exact .refl b
  · rw [hintern]
    exact frame_intern _ _

theorem frame_unionOf (members : List TypeId) : Frame keep b (unionOf members b).2 := by
  rcases unionOf_cases members b with ⟨single, -, hself⟩ | ⟨-, hintern⟩
  · rw [hself]
    exact .refl b
  · rw [hintern]
    exact frame_intern _ _

end Builder

open Builder Synthesis

/-! ### Computations -/

section

variable {ε ε' α β : Type} {keep : String → Prop}

/-- A computation leaves a frame, wherever it starts and however it ends. -/
def Frames (keep : String → Prop) (x : ExceptT ε Building α) : Prop :=
  ∀ b, Frame keep b (outcome x b).2

theorem Frames.of_runs {x : ExceptT ε Building α} {b b' : Builder} {a : α} (hx : Frames keep x)
    (h : Runs x b a b') : Frame keep b b' := by
  have hframe := hx b
  rwa [h] at hframe

theorem Frames.pure (a : α) : Frames keep (pure a : ExceptT ε Building α) := fun b => .refl b

theorem Frames.throw (e : ε) : Frames keep (throw e : ExceptT ε Building α) := fun b => .refl b

theorem Frames.lift {x : Building α} (h : ∀ b, Frame keep b (x b).2) :
    Frames keep (liftM x : ExceptT ε Building α) := h

theorem Frames.adapt {f : ε → ε'} {x : ExceptT ε Building α} (h : Frames keep x) :
    Frames keep (ExceptT.adapt f x) := h

/-- What comes second starts where the first one succeeded. -/
theorem Frames.bind_of_runs {x : ExceptT ε Building α} {f : α → ExceptT ε Building β}
    (hx : Frames keep x)
    (hf : ∀ {b a b'}, Runs x b a b' → Frame keep b' (outcome (f a) b').2) :
    Frames keep (x >>= f) := by
  intro b
  have hfirst := hx b
  rw [outcome_bind]
  cases hrun : outcome x b with
  | mk result b' =>
    rw [hrun] at hfirst
    cases result with
    | error e => exact hfirst
    | ok a => exact hfirst.trans (hf hrun)

theorem Frames.bind {x : ExceptT ε Building α} {f : α → ExceptT ε Building β}
    (hx : Frames keep x) (hf : ∀ a, Frames keep (f a)) : Frames keep (x >>= f) :=
  hx.bind_of_runs fun _ => hf _ _

theorem Frames.mapM {f : α → ExceptT ε Building β} :
    ∀ {l : List α}, (∀ a ∈ l, Frames keep (f a)) → Frames keep (l.mapM f)
  | [], _ => .pure _
  | a :: l, h => by
    rw [List.mapM_cons]
    refine (h a List.mem_cons_self).bind fun _ => ?_
    exact (Frames.mapM fun a ha => h a (List.mem_cons_of_mem _ ha)).bind fun _ => .pure _

theorem Frames.forM {f : α → ExceptT ε Building PUnit} :
    ∀ {l : List α}, (∀ a ∈ l, Frames keep (f a)) → Frames keep (l.forM f)
  | [], _ => .pure _
  | a :: l, h => by
    rw [List.forM_eq_forM, List.forM_cons]
    exact (h a List.mem_cons_self).bind fun _ =>
      Frames.forM fun a ha => h a (List.mem_cons_of_mem _ ha)

end

namespace Grammar

variable {keep : String → Prop} {g : Grammar}

/-! ### Descriptors -/

theorem frames_primitive {ε : Type} (kind : Primitive) :
    Frames keep (liftM (primitive kind) : ExceptT ε Building TypeId) :=
  .lift fun _ => frame_intern _ _

theorem frames_arrayOf {ε : Type} (item : TypeId) :
    Frames keep (liftM (arrayOf item) : ExceptT ε Building TypeId) :=
  .lift fun _ => frame_intern _ _

theorem frames_kind (name : String) : Frames keep (kind name) := by
  unfold kind
  split
  · exact frames_primitive _
  · split
    · exact (frames_primitive _).bind fun any => frames_arrayOf any
    · split
      · exact frames_primitive _
      · exact .throw _

theorem frames_reference (name : String) : Frames keep (reference g name) := by
  unfold reference
  split
  · exact .lift fun _ => frame_declare name
  · exact .throw _

theorem frames_referenceOrKind (name : String) : Frames keep (referenceOrKind g name) := by
  unfold referenceOrKind
  split
  · exact frames_reference name
  · exact frames_kind name

theorem frames_unionOfNames {names : List String} {complaint : String}
    {type : String → Resolving TypeId} (h : ∀ name, Frames keep (type name)) :
    Frames keep (unionOfNames names complaint type) := by
  have hunion : Frames keep (names.mapM type >>= fun members => liftM (unionOf members)) :=
    (Frames.mapM fun name _ => h name).bind fun members => .lift fun _ => frame_unionOf members
  rw [unionOfNames]
  split
  · exact (Frames.throw _).bind fun _ => hunion
  · exact hunion

mutual

/-- The type of a descriptor is made without harm to any other. -/
theorem frames_resolve : ∀ d : Descriptor, Frames keep (resolve g d)
  | .kind name => by
    rw [resolve]
    exact frames_kind name
  | .nodeTypes names => by
    rw [resolve]
    exact frames_unionOfNames frames_reference
  | .nodeOrValueTypes names => by
    rw [resolve]
    exact frames_unionOfNames frames_referenceOrKind
  | .oneOf (first :: _) => by
    rw [resolve]
    exact frames_primitive _
  | .chain (head :: rest) => by
    rw [resolve]
    split
    · exact (frames_resolveItem rest).bind fun item => frames_arrayOf item
    · exact frames_resolveFirst (head :: rest)
  | .shapeOf _ => by
    rw [resolve]
    exact frames_primitive _
  | .oneOf [] | .chain [] | .each _ | .empty | .unrecognized _ => by
    rw [resolve]
    exact .throw _

theorem frames_resolveItem : ∀ rest : List Descriptor, Frames keep (resolveItem g rest)
  | [] => by
    rw [resolveItem]
    exact frames_primitive _
  | link :: rest => by
    by_cases heach : ∃ item, link = .each item
    · obtain ⟨item, rfl⟩ := heach
      rw [resolveItem]
      exact frames_resolve item
    · rw [resolveItem_cons fun item h => heach ⟨item, h⟩]
      exact frames_resolve link

theorem frames_resolveFirst : ∀ links : List Descriptor, Frames keep (resolveFirst g links)
  | [] => by
    rw [resolveFirst]
    exact .throw _
  | link :: rest => by
    rw [resolveFirst]
    split
    · exact frames_resolveFirst rest
    · exact frames_resolve link

end

/-- So is the type of a field. -/
theorem frames_field (type : String) (f : GrammarField) :
    Frames keep (Synthesis.field g type f) := by
  unfold Synthesis.field
  split
  · next d _ =>
    refine (frames_resolve d).adapt.bind fun base => ?_
    split
    · exact Frames.bind (.lift fun _ => frame_nullable base) fun _ => .pure _
    · split
      · exact .pure _
      · exact .pure _
  · exact .throw _

/-! ### Names -/

theorem frames_declare {ε : Type} (name : String) :
    Frames keep (liftM (declare name) : ExceptT ε Building TypeId) :=
  .lift fun _ => frame_declare name

theorem find?_of_runs_declare {ε : Type} {b b' : Builder} {name : String} {id : TypeId}
    (h : Runs (liftM (declare name) : ExceptT ε Building TypeId) b id b') :
    b'.find? name = some id := by
  have hfind := find?_declare name (b := b)
  rwa [runs_lift_iff.mp h] at hfind

/-- The last two steps for a name: its handle is looked up, and the type behind it gets a body. -/
theorem frames_give {ε : Type} {name : String} (hname : ¬ keep name) (shape : Shape) :
    Frames keep (liftM (declare name) >>= fun id => liftM (Builder.define id shape) :
      ExceptT ε Building Unit) := by
  refine (frames_declare name).bind_of_runs fun h => frame_define (fun _ _ => ?_) shape
  rw [(find?_eq_some (find?_of_runs_declare h)).2]
  exact hname

theorem provides_of_give {ε : Type} {b b' : Builder} {name : String} {shape : Shape}
    (h : Runs (liftM (declare name) >>= fun id => liftM (Builder.define id shape) :
      ExceptT ε Building Unit) b () b') : b'.Provides name := by
  obtain ⟨id, b₁, hdeclare, hdefine⟩ := runs_bind_iff.mp h
  have hfind := find?_of_runs_declare hdeclare
  have hb' : b' = (Builder.define id shape b₁).2 := by rw [runs_lift_iff.mp hdefine]
  subst hb'
  have hframe : Frame (fun _ => False) b₁ (Builder.define id shape b₁).2 :=
    frame_define (fun _ _ => not_false) shape
  exact ⟨id, shape, hframe.find? hfind, body?_define_self (find?_eq_some hfind).1⟩

/-- A name of a grammar gets its body without harm to other names. -/
theorem frames_define {ignored : List (String × String)} {name : String} (hname : ¬ keep name) :
    Frames keep (Synthesis.define g ignored name) := by
  unfold Synthesis.define
  split
  · exact (Frames.mapM fun member _ => frames_declare member).bind fun _ => frames_give hname _
  · exact (Frames.mapM fun f _ => frames_field name f).bind fun _ => frames_give hname _
  · exact .pure _

theorem provides_of_define {ignored : List (String × String)} {b b' : Builder} {name : String}
    (hknown : g.Known name) (h : Runs (Synthesis.define g ignored name) b () b') :
    b'.Provides name := by
  unfold Synthesis.define at h
  split at h
  · obtain ⟨_, _, -, hgive⟩ := runs_bind_iff.mp h
    exact provides_of_give hgive
  · obtain ⟨_, _, -, hgive⟩ := runs_bind_iff.mp h
    exact provides_of_give hgive
  · next hmembers hfields =>
    rw [Known, isType, isGroup, hmembers, hfields] at hknown
    exact absurd hknown (by simp)

/-! ### Whole grammars -/

theorem frames_forM_define {ignored : List (String × String)} {names : List String}
    (h : ∀ name ∈ names, ¬ keep name) : Frames keep (names.forM (Synthesis.define g ignored)) :=
  .forM fun name hname => frames_define (h name hname)

/-- What got its body first keeps one while the others get theirs. -/
theorem provides_of_forM_define {ignored : List (String × String)} :
    ∀ {names : List String} {b b' : Builder}, (∀ name ∈ names, g.Known name) →
      Runs (names.forM (Synthesis.define g ignored)) b () b' →
        ∀ name ∈ names, b'.Provides name := by
  intro names
  induction names with
  | nil => simp
  | cons name names ih =>
    intro b b' hknown h
    obtain ⟨hname, hnames⟩ := List.forall_mem_cons.mp hknown
    rw [List.forM_eq_forM, List.forM_cons] at h
    obtain ⟨⟨⟩, b₁, hfirst, hrest⟩ := runs_bind_iff.mp h
    have hframe : Frame (fun _ => False) b₁ b' :=
      (frames_forM_define fun _ _ => not_false).of_runs hrest
    exact List.forall_mem_cons.mpr
      ⟨hframe.provides (provides_of_define hname hfirst), ih hnames hrest⟩

theorem frames_synthesize (g : Grammar) (ignored : List (String × String)) :
    Frames (fun name => ¬ g.Known name) (g.synthesize ignored) := by
  refine Frames.bind (.forM fun name _ => (frames_declare name).bind fun _ => .pure _) fun _ => ?_
  exact frames_forM_define fun name hname => not_not_intro (mem_names_iff.mp hname)

theorem provides_of_synthesize {ignored : List (String × String)} {b b' : Builder}
    (h : Runs (g.synthesize ignored) b () b') {name : String} (hname : g.Known name) :
    b'.Provides name := by
  obtain ⟨⟨⟩, b₁, -, hdefine⟩ := runs_bind_iff.mp h
  exact provides_of_forM_define (fun _ => mem_names_iff.mp) hdefine name (mem_names_iff.mpr hname)

/-- Synthesis is a layer on the schema that is there, wherever it stops. Types are only appended, so
that handles keep their names and names their handles; no type loses its body, and only a node type
or an alias group of the grammar gets another one; and in the end each of these has a body. -/
theorem synthesize_layers (g : Grammar) (ignored : List (String × String)) (b : Builder) :
    let result := (outcome (g.synthesize ignored) b).1
    let b' := (outcome (g.synthesize ignored) b).2
    b.declarations.map Declaration.heading <+: b'.declarations.map Declaration.heading ∧
      (∀ id, id.index < b.size → b'.name id = b.name id) ∧
      (∀ name id, b.find? name = some id → b'.find? name = some id) ∧
      (∀ name id, b.find? name = none → b'.find? name = some id → b.size ≤ id.index) ∧
      (∀ id shape, b.body? id = some shape →
        g.isType (b.name id) = false → g.isGroup (b.name id) = false →
          b'.body? id = some shape) ∧
      (∀ id, b.isDefined id = true → b'.isDefined id = true) ∧
      (result = .ok () → ∀ name, g.isType name = true ∨ g.isGroup name = true →
        ∃ id shape, b'.find? name = some id ∧ b'.body? id = some shape) := by
  intro result b'
  have hframe : Frame (fun name => ¬ g.Known name) b b' := frames_synthesize g ignored b
  refine ⟨hframe.headings, fun _ => hframe.name, fun _ _ => hframe.find?,
    fun _ _ => hframe.size_le_of_find?, fun id shape hbody htype hgroup => ?_,
    fun _ => hframe.defined, fun hok name hname => ?_⟩
  · refine hframe.body hbody ?_
    rw [Known, htype, hgroup]
    simp
  · have hruns : Runs (g.synthesize ignored) b () b' := Prod.ext hok rfl
    exact provides_of_synthesize hruns hname

/-- A schema in which two structural names are declared by hand, one of them with a body that it
would not get otherwise. -/
def handMade : Builder where
  declarations := [{ name := "string" }, { name := "Array<string>", body := some .nameSet }]

/-- Leaves with a list of words, and a type with a field that says nothing of its values. -/
def halfTold : Grammar where
  name := "halfTold"
  types := [
    ("Leaf", [
      { name := "words", descriptor := some (.chain [.kind "array", .each (.kind "string")]) }]),
    ("Twig", [{ name := "bark" }])]
  groups := []

/-- The leaves alone. -/
def fullyTold : Grammar := { halfTold with types := halfTold.types.take 1 }

/-- Synthesis stops at a field that says nothing: before it, one declared name has got the body it
was waiting for, and the other has kept the one it had. Without that field it comes to an end. -/
theorem synthesize_layers_handMade :
    (let b' := (outcome (halfTold.synthesize []) handMade).2
    (∃ e, (outcome (halfTold.synthesize []) handMade).1 = .error e) ∧
      b'.body? ⟨0⟩ = some (.primitive .string) ∧ b'.body? ⟨1⟩ = some .nameSet ∧
      b'.isDefined ⟨2⟩ = true ∧ b'.isDefined ⟨3⟩ = false) ∧
    (outcome (fullyTold.synthesize []) handMade).1 = .ok () ∧
      ∃ id shape, (outcome (fullyTold.synthesize []) handMade).2.find? "Leaf" = some id ∧
        (outcome (fullyTold.synthesize []) handMade).2.body? id = some shape := by
  obtain ⟨-, -, -, -, hbody, -, -⟩ := synthesize_layers halfTold [] handMade
  obtain ⟨-, -, -, -, -, -, hnames⟩ := synthesize_layers fullyTold [] handMade
  exact ⟨⟨⟨_, rfl⟩, rfl, hbody ⟨1⟩ .nameSet rfl rfl rfl, rfl, rfl⟩, rfl,
    hnames rfl "Leaf" (.inl rfl)⟩

end Grammar

end TypedTree
