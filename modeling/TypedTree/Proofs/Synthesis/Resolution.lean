/-
The types that a grammar gets.

The computations that make types from descriptors are followed step by step. Main
statements:

* `Runs` — a computation on a schema succeeds;
* `Grammar.resolve_spec` — the type made for a descriptor stands for it;
* `Grammar.define_spec` — a name gets a body that stands for it;
* `Grammar.exists_meaning` — in the registry of a grammar every name has such a body.
-/
import TypedTree.Catalogue.Registry
import TypedTree.Proofs.Schema.Freeze
import TypedTree.Proofs.Synthesis.Meaning

namespace TypedTree

/-! ### Computations that succeed -/

section

variable {ε ε' α β : Type} {b b' b'' : Builder}

/-- What a computation on a schema gives and leaves. -/
def outcome (x : ExceptT ε Building α) (b : Builder) : Except ε α × Builder := x.run b

/-- A computation on a schema succeeds, with what it gives and what it leaves. -/
def Runs (x : ExceptT ε Building α) (b : Builder) (a : α) (b' : Builder) : Prop :=
  outcome x b = (.ok a, b')

theorem outcome_bind {x : ExceptT ε Building α} {f : α → ExceptT ε Building β} :
    outcome (x >>= f) b =
      match outcome x b with
      | (.ok a, b') => outcome (f a) b'
      | (.error e, b') => (.error e, b') := by
  show StateT.bind x.run (ExceptT.bindCont f) b = _
  rw [outcome, StateT.bind]
  cases hx : x.run b with
  | mk result b' => cases result <;> rfl

theorem runs_bind_iff {x : ExceptT ε Building α} {f : α → ExceptT ε Building β} {c : β} :
    Runs (x >>= f) b c b'' ↔ ∃ a b', Runs x b a b' ∧ Runs (f a) b' c b'' := by
  rw [Runs, outcome_bind]
  cases hx : outcome x b with
  | mk result b' => cases result <;> simp [Runs, hx]

theorem runs_pure_iff {a c : α} : Runs (pure a : ExceptT ε Building α) b c b' ↔ c = a ∧ b' = b := by
  rw [Runs, show outcome (pure a : ExceptT ε Building α) b = (.ok a, b) from rfl]
  simp [eq_comm]

theorem not_runs_throw {e : ε} {c : α} : ¬ Runs (throw e : ExceptT ε Building α) b c b' := by
  intro h
  cases h

theorem runs_lift_iff {x : Building α} {c : α} :
    Runs (liftM x : ExceptT ε Building α) b c b' ↔ x b = (c, b') := by
  have hx : outcome (liftM x : ExceptT ε Building α) b = (.ok (x b).1, (x b).2) := rfl
  rw [Runs, hx, Prod.mk.injEq, Except.ok.injEq]
  constructor
  · rintro ⟨rfl, rfl⟩
    rfl
  · intro hc
    rw [hc]
    exact ⟨rfl, rfl⟩

theorem runs_adapt_iff {f : ε → ε'} {x : ExceptT ε Building α} {c : α} :
    Runs (ExceptT.adapt f x) b c b' ↔ Runs x b c b' := by
  have hadapt : outcome (ExceptT.adapt f x) b = ((outcome x b).1.mapError f, (outcome x b).2) := rfl
  rw [Runs, Runs, hadapt]
  cases outcome x b with
  | mk result b' => cases result <;> simp [Except.mapError]

/-- A computation that does not fail succeeds. -/
theorem exists_runs_of_check {x : ExceptT ε Building α} (h : (match outcome x b with
      | (.ok _, _) => true
      | (.error _, _) => false) = true) : ∃ a b', Runs x b a b' := by
  rw [show (∃ a b', Runs x b a b') = ∃ a b', outcome x b = (.ok a, b') from rfl]
  match hx : outcome x b, h with
  | (.ok a, b'), _ => exact ⟨a, b', rfl⟩

end

open Builder Synthesis
open Descriptor (namesNodes itemOf? firstLink? headIsArray)

namespace Grammar

variable {g : Grammar} {b b' : Builder} {id : TypeId}

/-! ### Lists -/

/-- A traversal that makes one thing for each item: what is true of the things made first
stays true while the later ones are made. -/
theorem runs_mapM_of {ε α β : Type} (Good : Builder → Prop) {f : α → ExceptT ε Building β}
    {P : Builder → α → β → Prop}
    (hmono : ∀ {b b' : Builder} {a : α} {c : β}, Good b → Good b' →
      Extends (fun _ => True) b b' → P b a c → P b' a c) :
    ∀ {l : List α} {cs : List β} {b b' : Builder},
      (∀ a ∈ l, ∀ {b b' : Builder} {c : β}, Good b → Runs (f a) b c b' →
        Good b' ∧ Extends (fun _ => True) b b' ∧ P b' a c) →
      Good b → Runs (l.mapM f) b cs b' →
        Good b' ∧ Extends (fun _ => True) b b' ∧ List.Forall₂ (P b') l cs := by
  intro l
  -- What was made for an item stays true while the schema grows further.
  induction l with
  | nil =>
    intro cs b b' _ hb h
    obtain ⟨rfl, rfl⟩ := runs_pure_iff.mp h
    exact ⟨hb, .refl _, .nil⟩
  | cons a l ih =>
    intro cs b b' hstep hb h
    rw [List.mapM_cons] at h
    obtain ⟨c, b₁, hc, h⟩ := runs_bind_iff.mp h
    obtain ⟨cs', b₂, hcs, h⟩ := runs_bind_iff.mp h
    obtain ⟨rfl, rfl⟩ := runs_pure_iff.mp h
    obtain ⟨hb₁, hext, hP⟩ := hstep a List.mem_cons_self hb hc
    obtain ⟨hb', hext', hPs⟩ := ih (fun a ha => hstep a (List.mem_cons_of_mem _ ha)) hb₁ hcs
    exact ⟨hb', hext.trans hext', .cons (hmono hb₁ hb' hext' hP) hPs⟩

/-- The same for schemas in which names tell bodies. -/
theorem runs_mapM {ε α β : Type} {f : α → ExceptT ε Building β} {P : Builder → α → β → Prop}
    (hmono : ∀ {b b' : Builder} {a : α} {c : β}, b.Sound g.Known → Grows g.Known b b' → P b a c →
      P b' a c) {l : List α} {cs : List β} {b b' : Builder}
    (hstep : ∀ a ∈ l, ∀ {b b' : Builder} {c : β}, b.Sound g.Known → Runs (f a) b c b' →
      Grows g.Known b b' ∧ P b' a c)
    (hs : b.Sound g.Known) (h : Runs (l.mapM f) b cs b') :
    Grows g.Known b b' ∧ List.Forall₂ (P b') l cs := by
  obtain ⟨hs', hext, hall⟩ := runs_mapM_of (P := P) (·.Sound g.Known)
    (fun hs hs' hext => hmono hs ⟨hs', hext⟩)
    (fun a ha _ _ _ hs h => by
      obtain ⟨hgrow, hP⟩ := hstep a ha hs h
      exact ⟨hgrow.sound, hgrow.extends_, hP⟩) hs h
  exact ⟨⟨hs', hext⟩, hall⟩

/-- A traversal that gives names their bodies, where a name may come again: the last body that
a name gets is its own. -/
theorem runs_forM_of (Good : Builder → Prop) {f : String → Synthesizing Unit}
    {known : String → Prop} {P : Builder → String → Prop}
    (hmono : ∀ {keep : String → Prop} {b b' : Builder} {name : String}, Good b → Good b' →
      Extends keep b b' → (∀ name, ¬ known name → keep name) → keep name → P b name → P b' name)
    (hstep : ∀ {name : String} {b b' : Builder}, known name → Good b → Runs (f name) b () b' →
      Good b' ∧ Extends (· ≠ name) b b' ∧ P b' name) :
    ∀ {names : List String} {b b' : Builder}, (∀ name ∈ names, known name) → Good b →
      Runs (names.forM f) b () b' →
        Good b' ∧ Extends (· ∉ names) b b' ∧ ∀ name ∈ names, P b' name := by
  intro names
  induction names with
  | nil =>
    intro b b' _ hb h
    obtain ⟨-, rfl⟩ := runs_pure_iff.mp h
    exact ⟨hb, .refl _, by simp⟩
  | cons name names ih =>
    intro b b' hknown hb h
    obtain ⟨hname, hnames⟩ := List.forall_mem_cons.mp hknown
    rw [List.forM_eq_forM, List.forM_cons] at h
    obtain ⟨⟨⟩, b₁, hfirst, h⟩ := runs_bind_iff.mp h
    obtain ⟨hb₁, hext₁, hP⟩ := hstep hname hb hfirst
    obtain ⟨hb', hext', hall⟩ := ih hnames hb₁ h
    refine ⟨hb', (hext₁.mono fun _ h => ?_).trans (hext'.mono fun _ h => ?_), ?_⟩
    · exact fun heq => h (heq ▸ List.mem_cons_self)
    · exact fun hmem => h (List.mem_cons_of_mem _ hmem)
    · refine List.forall_mem_cons.mpr ⟨?_, hall⟩
      -- A name that comes again gets its body then.
      by_cases hagain : name ∈ names
      · exact hall name hagain
      · exact hmono hb₁ hb' hext' (fun name hunknown hmem => hunknown (hnames name hmem)) hagain hP

section

variable (hplain : ∀ {name : String}, g.Known name → PlainName name)
include hplain

/-! ### Kinds and references -/

omit hplain in
theorem has_of_added {name : String} {shape : Shape} (h : Added g.Known b b' id name shape) :
    g.Has b' id shape := ⟨h.body_eq, h.name_eq ▸ h.unknown⟩

theorem kind_spec (hs : b.Sound g.Known) {name : String} (h : Runs (kind name) b id b') :
    Grows g.Known b b' ∧ id.index < b'.size ∧ g.MeansKind b' name id := by
  unfold kind at h
  unfold MeansKind
  split_ifs at h ⊢
  · have hid := hs.primitive hplain (runs_lift_iff.mp h)
    exact ⟨hid.toGrows, hid.inside, has_of_added hid⟩
  · obtain ⟨any, b₁, hany, h⟩ := runs_bind_iff.mp h
    have hany := hs.primitive hplain (runs_lift_iff.mp hany)
    have hid := hany.sound.arrayOf hplain hany.inside (runs_lift_iff.mp h)
    exact ⟨hany.toGrows.trans hid.toGrows, hid.inside, any, has_of_added hid,
      (has_of_added hany).extends (hid.extends_.mono fun _ _ => trivial)⟩
  · split at h
    · next kind hkind =>
      have hid := hs.primitive hplain (runs_lift_iff.mp h)
      exact ⟨hid.toGrows, hid.inside, kind, hkind, has_of_added hid⟩
    · exact absurd h not_runs_throw

omit hplain in
theorem reference_spec (hdeclared : ∀ {name}, g.Known name → ∃ id, b.find? name = some id)
    {name : String} (h : Runs (reference g name) b id b') :
    b' = b ∧ g.MeansNode b name id := by
  unfold reference at h
  split at h
  · next hknown =>
    have hknown : g.Known name := Bool.or_eq_true_iff.mp hknown
    obtain ⟨id', hfind⟩ := hdeclared hknown
    have hdeclare := runs_lift_iff.mp h
    rw [declare_of_find? hfind] at hdeclare
    cases hdeclare
    exact ⟨rfl, hknown, hfind⟩
  · exact absurd h not_runs_throw

/-! ### Lists of alternatives -/

omit hplain in
/-- The name of a structural type is the text of its label. -/
theorem Has.name_eq (hs : b.Sound g.Known) {shape : Shape} (h : g.Has b id shape) :
    ∃ label, b.label? shape = some label ∧ b.name id = label.text := by
  obtain ⟨hbody, hunknown⟩ := h
  obtain ⟨shape', hbody', -, label, hlabel, -, hname⟩ := hs.tells (lt_size_of_body? hbody) hunknown
  obtain rfl := Option.some.inj (hbody.symm.trans hbody')
  exact ⟨label, hlabel, hname⟩

omit hplain in
theorem MeansKind.memberName (hs : b.Sound g.Known) {name : String}
    (h : g.MeansKind b name id) : MemberName (b.name id) := by
  have hprimitive : ∀ {kind : Primitive} {id : TypeId}, g.Has b id (.primitive kind) →
      b.name id = kind.name := by
    intro kind id h
    obtain ⟨label, hlabel, hname⟩ := h.name_eq hs
    cases hlabel
    exact hname
  unfold MeansKind at h
  split_ifs at h
  · exact .inr (.inl ⟨_, hprimitive h⟩)
  · obtain ⟨item, hid, hitem⟩ := h
    obtain ⟨label, hlabel, hname⟩ := hid.name_eq hs
    cases hlabel
    refine .inr (.inr ?_)
    rw [hname, TypeLabel.text, hprimitive hitem]
    rfl
  · obtain ⟨kind, -, hid⟩ := h
    exact .inr (.inl ⟨_, hprimitive hid⟩)

theorem MeansName.memberName (hs : b.Sound g.Known) {node : String → Bool} {name : String}
    (h : g.MeansName b node name id) : MemberName (b.name id) := by
  unfold MeansName at h
  split_ifs at h
  · obtain ⟨hknown, hfind⟩ := h
    rw [(find?_eq_some hfind).2]
    exact .inl (hplain hknown)
  · exact MeansKind.memberName hs h

/-- A list of names gets the union of the types of all. -/
theorem unionOfNames_spec (node : String → Bool) (hs : b.Sound g.Known) {names : List String}
    {complaint : String} {type : String → Resolving TypeId}
    (hstep : ∀ {name : String} {b b' : Builder} {id : TypeId}, b.Sound g.Known →
      Runs (type name) b id b' →
        Grows g.Known b b' ∧ id.index < b'.size ∧ g.MeansName b' node name id)
    (h : Runs (unionOfNames names complaint type) b id b') :
    Grows g.Known b b' ∧ id.index < b'.size ∧ g.MeansList b' node names id := by
  have hne : names ≠ [] := by
    rintro rfl
    obtain ⟨_, _, h, -⟩ := runs_bind_iff.mp h
    exact not_runs_throw h
  rw [unionOfNames, if_neg (by simpa using hne)] at h
  obtain ⟨ids, b₁, hids, h⟩ := runs_bind_iff.mp h
  obtain ⟨hgrow, hall⟩ := runs_mapM (g := g)
    (P := fun b name id => id.index < b.size ∧ g.MeansName b node name id)
    (fun hs hgrow h => ⟨Nat.lt_of_lt_of_le h.1 hgrow.extends_.size,
      h.2.extends hs hgrow.sound (hgrow.extends_.mono fun _ _ => trivial)⟩)
    (fun _ _ => hstep) hs hids
  have hids : ids ≠ [] := by
    rintro rfl
    exact hne (List.length_eq_zero_iff.mp hall.length_eq)
  have hmember : ∀ id ∈ ids, id.index < b₁.size ∧ MemberName (b₁.name id) := by
    intro id hid
    obtain ⟨name, -, hinside, hname⟩ := exists_of_forall₂_of_mem_right hall hid
    exact ⟨hinside, hname.memberName hplain hgrow.sound⟩
  have hall := hall.imp fun _ _ h => h.2
  -- Names of one type only give that type itself, and no union is made.
  rcases hgrow.sound.unionOf hplain hids hmember (runs_lift_iff.mp h) with
    ⟨hone, rfl⟩ | ⟨name, hid⟩
  · have hmem : id ∈ ids := ((distinct_spec ids).2 id).mp (by simp [hone])
    exact ⟨hgrow, (hmember id hmem).1, ids, hall, .inl hone⟩
  · refine ⟨hgrow.trans hid.toGrows, hid.inside, ids, ?_, .inr (has_of_added hid)⟩
    exact hall.imp fun _ _ h =>
      h.extends hgrow.sound hid.sound (hid.extends_.mono fun _ _ => trivial)

end

/-! ### Descriptors -/

/-- What follows the head of an array stands for the items by itself, unless it is said of each. -/
theorem resolveItem_cons {link : Descriptor} (h : ∀ item, link ≠ .each item)
    (rest : List Descriptor) : resolveItem g (link :: rest) = resolve g link := by
  rw [resolveItem]
  exact h

theorem itemOf?_cons {link : Descriptor} (h : ∀ item, link ≠ .each item)
    (rest : List Descriptor) : itemOf? (link :: rest) = some link := by
  rw [itemOf?]
  exact h

mutual

/-- The type made for a descriptor stands for it. -/
theorem resolve_spec (hplain : ∀ {name : String}, g.Known name → PlainName name)
    (hs : b.Sound g.Known) : ∀ {d : Descriptor} {b' : Builder} {id : TypeId},
    Runs (resolve g d) b id b' →
      Grows g.Known b b' ∧ id.index < b'.size ∧ g.Means b' d id
  | .kind name, _, _, h => by
    rw [resolve] at h
    obtain ⟨hgrow, hinside, hid⟩ := kind_spec hplain hs h
    exact ⟨hgrow, hinside, .kind hid⟩
  | .nodeTypes names, _, _, h => by
    rw [resolve] at h
    obtain ⟨hgrow, hinside, hid⟩ := unionOfNames_spec hplain (fun _ => true) hs
      (fun hs h => by
        obtain ⟨rfl, hname⟩ := reference_spec hs.declared h
        exact ⟨⟨hs, .refl _⟩, (find?_eq_some hname.2).1, hname⟩) h
    exact ⟨hgrow, hinside, .nodeTypes hid⟩
  | .nodeOrValueTypes names, _, _, h => by
    rw [resolve] at h
    obtain ⟨hgrow, hinside, hid⟩ := unionOfNames_spec hplain namesNodes hs
      (fun hs h => by
        unfold referenceOrKind at h
        unfold MeansName namesNodes
        split_ifs at h ⊢
        · obtain ⟨rfl, hname⟩ := reference_spec hs.declared h
          exact ⟨⟨hs, .refl _⟩, (find?_eq_some hname.2).1, hname⟩
        · exact kind_spec hplain hs h) h
    exact ⟨hgrow, hinside, .nodeOrValueTypes hid⟩
  | .oneOf [], _, _, h => by
    rw [resolve] at h
    exact absurd h not_runs_throw
  | .oneOf (first :: _), _, _, h => by
    rw [resolve] at h
    have hid := hs.primitive hplain (runs_lift_iff.mp h)
    exact ⟨hid.toGrows, hid.inside, .oneOf (has_of_added hid)⟩
  | .chain [], _, _, h => by
    rw [resolve] at h
    exact absurd h not_runs_throw
  | .chain (head :: rest), _, _, h => by
    rw [resolve] at h
    split at h
    · -- The head is the kind of arrays: what follows is said of the items.
      next hhead =>
      obtain ⟨item, b₁, hitem, h⟩ := runs_bind_iff.mp h
      obtain ⟨hgrow, hinside, heach, hany⟩ := resolveItem_spec hplain hs hitem
      have hid := hgrow.sound.arrayOf hplain hinside (runs_lift_iff.mp h)
      have hext : Extends (fun name => ¬ g.Known name) b₁ _ := hid.extends_.mono fun _ _ => trivial
      exact ⟨hgrow.trans hid.toGrows, hid.inside, .array hhead (has_of_added hid)
        (fun d hd => (heach d hd).extends hgrow.sound hid.sound hext)
        (fun hnone => (hany hnone).extends hext)⟩
    · next hhead =>
      obtain ⟨hgrow, hinside, d, hfirst, hid⟩ := resolveFirst_spec hplain hs h
      exact ⟨hgrow, hinside, .first (by simpa [headIsArray] using hhead) hfirst hid⟩
  | .shapeOf _, _, _, h => by
    rw [resolve] at h
    have hid := hs.primitive hplain (runs_lift_iff.mp h)
    exact ⟨hid.toGrows, hid.inside, .shapeOf (has_of_added hid)⟩
  | .each _, _, _, h | .empty, _, _, h | .unrecognized _, _, _, h => by
    rw [resolve] at h
    exact absurd h not_runs_throw

/-- The type of the items of an array stands for what is said about them. -/
theorem resolveItem_spec (hplain : ∀ {name : String}, g.Known name → PlainName name)
    (hs : b.Sound g.Known) : ∀ {rest : List Descriptor} {b' : Builder} {id : TypeId},
    Runs (resolveItem g rest) b id b' →
      Grows g.Known b b' ∧ id.index < b'.size ∧
        (∀ d, itemOf? rest = some d → g.Means b' d id) ∧
        (itemOf? rest = none → g.Has b' id (.primitive .any))
  | [], _, _, h => by
    rw [resolveItem] at h
    have hid := hs.primitive hplain (runs_lift_iff.mp h)
    exact ⟨hid.toGrows, hid.inside, fun _ hd => by simp [itemOf?] at hd, fun _ => has_of_added hid⟩
  | link :: rest, _, _, h => by
    by_cases heach : ∃ item, link = .each item
    · obtain ⟨item, rfl⟩ := heach
      rw [resolveItem] at h
      obtain ⟨hgrow, hinside, hid⟩ := resolve_spec hplain hs h
      refine ⟨hgrow, hinside, fun d hd => ?_, fun hnone => nomatch hnone⟩
      cases hd
      exact hid
    · have hother : ∀ item, link ≠ .each item := fun item h => heach ⟨item, h⟩
      rw [resolveItem_cons hother] at h
      obtain ⟨hgrow, hinside, hid⟩ := resolve_spec hplain hs h
      rw [itemOf?_cons hother]
      refine ⟨hgrow, hinside, fun d hd => ?_, fun hnone => nomatch hnone⟩
      cases hd
      exact hid

/-- The type of the first link that says something stands for that link. -/
theorem resolveFirst_spec (hplain : ∀ {name : String}, g.Known name → PlainName name)
    (hs : b.Sound g.Known) :
    ∀ {links : List Descriptor} {b' : Builder} {id : TypeId}, Runs (resolveFirst g links) b id b' →
      Grows g.Known b b' ∧ id.index < b'.size ∧
        ∃ d, firstLink? links = some d ∧ g.Means b' d id
  | [], _, _, h => by
    rw [resolveFirst] at h
    exact absurd h not_runs_throw
  | link :: rest, _, _, h => by
    rw [resolveFirst] at h
    split at h
    · next hempty =>
      obtain ⟨hgrow, hinside, d, hfirst, hid⟩ := resolveFirst_spec hplain hs h
      refine ⟨hgrow, hinside, d, ?_, hid⟩
      rwa [firstLink?, List.find?_cons_of_neg (by simpa using hempty)]
    · next hempty =>
      obtain ⟨hgrow, hinside, hid⟩ := resolve_spec hplain hs h
      exact ⟨hgrow, hinside, link, List.find?_cons_of_pos (by simpa using hempty), hid⟩

end

section

variable (hplain : ∀ {name : String}, g.Known name → PlainName name)
include hplain

/-! ### Fields -/

/-- The field made for a field of a node type stands for it. -/
theorem field_spec (hs : b.Sound g.Known) {type : String} {f : GrammarField} {field : Field}
    (h : Runs (Synthesis.field g type f) b field b') :
    Grows g.Known b b' ∧ g.FieldMeans b' f field := by
  unfold Synthesis.field at h
  cases hd : f.descriptor with
  | none =>
    rw [hd] at h
    exact absurd h not_runs_throw
  | some d =>
    rw [hd] at h
    obtain ⟨base, b₁, hbase, h⟩ := runs_bind_iff.mp h
    obtain ⟨hgrow, hinside, hbase⟩ := resolve_spec hplain hs (runs_adapt_iff.mp hbase)
    split at h
    · next hoptional =>
      obtain ⟨type, b₂, htype, h⟩ := runs_bind_iff.mp h
      obtain ⟨rfl, rfl⟩ := runs_pure_iff.mp h
      -- `null` is added only where the base type does not take it already.
      rcases hgrow.sound.nullable hplain hinside (runs_lift_iff.mp htype) with
        ⟨rfl, rfl, -⟩ | hid
      · exact ⟨hgrow, rfl, ⟨d, _, hd, hbase, .inl rfl⟩, fun _ => ⟨_, rfl⟩,
          fun hnot => absurd (.inl hoptional) hnot⟩
      · exact ⟨hgrow.trans hid.toGrows, rfl,
          ⟨d, base, hd, hbase.extends hgrow.sound hid.sound (hid.extends_.mono fun _ _ => trivial),
            .inr ⟨has_of_added hid, hoptional⟩⟩,
          fun _ => ⟨_, rfl⟩, fun hnot => absurd (.inl hoptional) hnot⟩
    · next hoptional =>
      split at h
      · next literal hdefault =>
        obtain ⟨rfl, rfl⟩ := runs_pure_iff.mp h
        exact ⟨hgrow, rfl, ⟨d, _, hd, hbase, .inl rfl⟩, fun _ => ⟨_, rfl⟩,
          fun hnot => absurd (.inr (by rw [hdefault]; rfl)) hnot⟩
      · next hdefault =>
        obtain ⟨rfl, rfl⟩ := runs_pure_iff.mp h
        refine ⟨hgrow, rfl, ⟨d, _, hd, hbase, .inl rfl⟩, ?_, fun _ => rfl⟩
        rintro (hopt | hsome)
        · exact absurd hopt hoptional
        · rw [hdefault] at hsome
          cases hsome

/-! ### Names -/

omit hplain in
theorem runs_declare {ε : Type} {name : String} (hdeclared : ∃ id, b.find? name = some id)
    (h : Runs (liftM (declare name) : ExceptT ε Building TypeId) b id b') :
    b' = b ∧ b.find? name = some id := by
  obtain ⟨id', hfind⟩ := hdeclared
  have hdeclare := runs_lift_iff.mp h
  rw [declare_of_find? hfind] at hdeclare
  cases hdeclare
  exact ⟨rfl, hfind⟩

omit hplain in
theorem kept_nil (type : String) (fields : List GrammarField) : kept [] type fields = fields :=
  List.filter_eq_self.mpr fun _ _ => rfl

omit hplain in
/-- A new body under a known name. -/
theorem runs_define (hs : b.Sound g.Known) {ε : Type} {name : String} {shape : Shape}
    (hknown : g.Known name) (hfind : b.find? name = some id)
    (h : Runs (liftM (Builder.define id shape) : ExceptT ε Building Unit) b () b') :
    b'.Sound g.Known ∧ Extends (· ≠ name) b b' ∧ b'.find? name = some id ∧
      b'.body? id = some shape := by
  have hdefine : b' = (Builder.define id shape b).2 := by rw [runs_lift_iff.mp h]
  subst hdefine
  obtain ⟨hinside, rfl⟩ := find?_eq_some hfind
  have hsound := hs.define hknown shape
  exact ⟨hsound, extends_define id shape,
    hs.find?_of_extends hsound (extends_define id shape) hfind, body?_define_self hinside⟩

/-- A name gets a body that stands for it, and no other name gets a new one. -/
theorem define_spec (hs : b.Sound g.Known) {name : String} (hknown : g.Known name)
    (hmembers : ∀ members, g.membersOf? name = some members → ∀ m ∈ members, g.Known m)
    (h : Runs (Synthesis.define g [] name) b () b') :
    b'.Sound g.Known ∧ Extends (· ≠ name) b b' ∧ g.Defines b' name := by
  -- The members are asked for first: a name that is a group has no product, whatever its fields.
  unfold Synthesis.define at h
  split at h
  · next members hm =>
    obtain ⟨ids, b₁, hids, hrest⟩ := runs_bind_iff.mp h
    obtain ⟨hgrow, hall⟩ := runs_mapM (P := fun b member id => b.find? member = some id)
      (fun hs hgrow h => hs.find?_of_extends hgrow.sound hgrow.extends_ h)
      (fun m hmem _ _ _ hs h => by
        obtain ⟨rfl, hfind⟩ := runs_declare (hs.declared (hmembers members hm m hmem)) h
        exact ⟨⟨hs, .refl _⟩, hfind⟩) hs hids
    obtain ⟨id, b₂, hid, hdefine⟩ := runs_bind_iff.mp hrest
    obtain ⟨rfl, hfind⟩ := runs_declare (hgrow.sound.declared hknown) hid
    obtain ⟨hsound, hext, hfind', hbody⟩ := runs_define hgrow.sound hknown hfind hdefine
    exact ⟨hsound, (hgrow.extends_.mono fun _ _ => trivial).trans hext,
      .group hm hfind' hbody
        (hall.imp fun _ _ h => hgrow.sound.find?_of_extends hsound hext h)⟩
  · next fields hm hf =>
    rw [kept_nil] at h
    obtain ⟨slots, b₁, hslots, hrest⟩ := runs_bind_iff.mp h
    obtain ⟨hgrow, hall⟩ := runs_mapM (P := g.FieldMeans)
      (fun hs hgrow h => h.extends hs hgrow.sound (hgrow.extends_.mono fun _ _ => trivial))
      (fun _ _ _ _ _ hs h => field_spec hplain hs h) hs hslots
    obtain ⟨id, b₂, hid, hdefine⟩ := runs_bind_iff.mp hrest
    obtain ⟨rfl, hfind⟩ := runs_declare (hgrow.sound.declared hknown) hid
    obtain ⟨hsound, hext, hfind', hbody⟩ := runs_define hgrow.sound hknown hfind hdefine
    refine ⟨hsound, (hgrow.extends_.mono fun _ _ => trivial).trans hext,
      .type hm hf hfind' hbody (hall.imp fun _ _ h => ?_)⟩
    refine h.extends hgrow.sound hsound (hext.mono ?_)
    rintro _ hunknown rfl
    exact hunknown hknown
  · next hm hf =>
    rcases hknown with htype | hgroup
    · rw [isType, hf] at htype
      cases htype
    · rw [isGroup, hm] at hgroup
      cases hgroup

/-! ### Whole grammars -/

/-- All names of a list get bodies that stand for them. -/
theorem forM_define_spec
    (hmembers : ∀ name members, g.membersOf? name = some members → ∀ m ∈ members, g.Known m)
    {names : List String} (hknown : ∀ name ∈ names, g.Known name) (hs : b.Sound g.Known)
    (h : Runs (names.forM (Synthesis.define g [])) b () b') :
    b'.Sound g.Known ∧ Extends (· ∉ names) b b' ∧ ∀ name ∈ names, g.Defines b' name :=
  runs_forM_of (·.Sound g.Known)
    (fun hs hs' hext hkeep hname h => h.extends hs hs' hext hkeep hname)
    (fun hname hs h => define_spec hplain hs hname (hmembers _) h) hknown hs h

/-- Only names of the grammar are declared, each of them once, and none has a body. -/
structure Bare (g : Grammar) (b : Builder) : Prop where
  nodup : b.DistinctNames
  known : ∀ {id : TypeId}, id.index < b.size → g.Known (b.name id)
  bodies : ∀ id, b.body? id = none

omit hplain in
theorem declare_spec (hb : g.Bare b) {name : String} (hname : g.Known name)
    (h : declare name b = (id, b')) :
    g.Bare b' ∧ Extends (fun _ => True) b b' ∧ b'.find? name = some id := by
  cases hfind : b.find? name with
  | some found =>
    rw [declare_of_find? hfind] at h
    cases h
    exact ⟨hb, .refl _, hfind⟩
  | none =>
    rw [declare_of_find?_eq_none hfind] at h
    cases h
    -- The new handle is the only one of that name.
    have hext : Extends (fun _ => True) b (b.append { name }) := extends_append _
    have hdistinct : (b.append { name }).DistinctNames := DistinctNames.append hb.nodup hfind
    have hsize : (b.append { name }).size = b.size + 1 := size_append _
    refine ⟨⟨hdistinct, fun hid => ?_, fun id => ?_⟩, hext,
      hdistinct.find?_iff.mpr ⟨by show b.size < _; omega, name_append_size _⟩⟩
    · rcases lt_or_eq_of_lt_size_append hid with hlt | rfl
      · rw [hext.name hlt]
        exact hb.known hlt
      · rw [name_append_size]
        exact hname
    · by_contra hsome
      obtain ⟨shape, hshape⟩ := Option.ne_none_iff_exists'.mp hsome
      rcases lt_or_eq_of_lt_size_append (lt_size_of_body? hshape) with hlt | rfl
      · rw [body?, declaration?_append_of_lt hlt] at hshape
        have hnone := hb.bodies id
        rw [body?] at hnone
        rw [hnone] at hshape
        cases hshape
      · rw [body?_append_size] at hshape
        cases hshape

omit hplain in
/-- Declaring names of the grammar, each of which may come again. -/
theorem forM_declare_spec : ∀ {names : List String} {b : Builder}, (∀ name ∈ names, g.Known name) →
    g.Bare b → Runs (names.forM fun name => do
      let _ ← (liftM (declare name) : Synthesizing TypeId)) b () b' →
    g.Bare b' ∧ Extends (fun _ => True) b b' ∧ ∀ name ∈ names, ∃ id, b'.find? name = some id := by
  intro names
  induction names with
  | nil =>
    intro b _ hb h
    obtain ⟨-, rfl⟩ := runs_pure_iff.mp h
    exact ⟨hb, .refl _, by simp⟩
  | cons name names ih =>
    intro b hknown hb h
    obtain ⟨hname, hnames⟩ := List.forall_mem_cons.mp hknown
    rw [List.forM_eq_forM, List.forM_cons] at h
    obtain ⟨⟨⟩, b₁, hdeclare, hrest⟩ := runs_bind_iff.mp h
    obtain ⟨id, b₂, hid, hpure⟩ := runs_bind_iff.mp hdeclare
    obtain ⟨-, rfl⟩ := runs_pure_iff.mp hpure
    obtain ⟨hb₁, hext₁, hfind⟩ := declare_spec hb hname (runs_lift_iff.mp hid)
    obtain ⟨hb', hext', hall⟩ := ih hnames hb₁ hrest
    exact ⟨hb', hext₁.trans hext', List.forall_mem_cons.mpr ⟨hext'.declared ⟨id, hfind⟩, hall⟩⟩

omit hplain in
theorem mem_names_iff {name : String} : name ∈ g.names ↔ g.Known name := by
  rw [names, List.mem_append, List.mem_filter, mem_keys_iff, mem_keys_iff]
  show g.isType name = true ∨ g.isGroup name = true ∧ _ ↔ _
  rw [Known]
  cases g.isType name <;> simp

omit hplain in
/-- The names come first, all together, so that every reference finds its handle. -/
theorem exists_bare_of_synthesize {ignored : List (String × String)}
    (h : Runs (g.synthesize ignored) {} () b) :
    ∃ b₁, g.Bare b₁ ∧ (∀ {name}, g.Known name → ∃ id, b₁.find? name = some id) ∧
      Runs (g.names.forM (Synthesis.define g ignored)) b₁ () b := by
  obtain ⟨⟨⟩, b₁, hdeclare, hdefine⟩ := runs_bind_iff.mp h
  have hempty : g.Bare {} :=
    ⟨fun hid => absurd hid (Nat.not_lt_zero _), fun hid => absurd hid (Nat.not_lt_zero _),
      fun _ => rfl⟩
  obtain ⟨hbare, -, hfind⟩ := forM_declare_spec (fun _ => mem_names_iff.mp) hempty hdeclare
  exact ⟨b₁, hbare, fun hname => hfind _ (mem_names_iff.mpr hname), hdefine⟩

omit hplain in
theorem runs_of_registry {reg : Registry} (h : g.registry = .ok reg) :
    ∃ b : Builder, Runs (g.synthesize []) {} () b ∧ b.freeze = .ok reg := by
  unfold registry freezeBuilt at h
  split at h
  · next b hrun => exact ⟨b, hrun, h⟩
  · cases h

/-- In the registry of a grammar every name has a body that stands for it. -/
theorem exists_meaning
    (hmembers : ∀ name members, g.membersOf? name = some members → ∀ m ∈ members, g.Known m)
    {reg : Registry} (h : g.registry = .ok reg) :
    ∃ b : Builder, b.freeze = .ok reg ∧ b.Sound g.Known ∧
      ∀ name, g.Known name → g.Defines b name := by
  obtain ⟨b, hrun, hfreeze⟩ := runs_of_registry h
  obtain ⟨b₁, hbare, hfind, hdefine⟩ := exists_bare_of_synthesize hrun
  have hs : b₁.Sound g.Known :=
    ⟨hfind, hbare.nodup, fun hid hunknown => absurd (hbare.known hid) hunknown⟩
  obtain ⟨hsound, -, hall⟩ :=
    forM_define_spec hplain hmembers (fun _ => mem_names_iff.mp) hs hdefine
  exact ⟨b, hfreeze, hsound, fun name hname => hall name (mem_names_iff.mpr hname)⟩

end

end Grammar

end TypedTree
