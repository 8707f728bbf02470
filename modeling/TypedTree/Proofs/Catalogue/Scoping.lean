/-
The sets of names that the catalogue computes.

Main statements:

* `Registry.scopesWithin` — a check that every product takes, adds and takes away the names
  that the scope of its nodes says;
* `Registry.mem_bindingNames_iff`, `Registry.mem_freeVariables_iff` — in a registry that
  passes the check, the sets are those of the names bound and of the names free;
* `Catalogue.scoping` — so they are for every source that the catalogue translates.

Design notes: the sets are computed from below, and free names are defined from above.
Both are taken one node at a time, where `Node.binds_iff` and `Node.free_iff` meet the
equations of the computed fields. A child whose type carries no free variables must be of a
type in which nothing is mentioned.
-/
import TypedTree.Proofs.Catalogue.Scope
import TypedTree.Proofs.Translation.Bounded

namespace TypedTree

deriving instance DecidableEq for SetTerm

namespace Registry

/-! ### A check that can be run -/

/-- The terms of the set that a field is computed as. -/
def termsOf? (field : Field) : Option (List (SetTerm String)) :=
  match field.rule? with
  | some (.names expr) => some expr.named
  | some (.always (.names set)) => if set.toList = [] then some [] else none
  | _ => none

/-- The attributes that hold sets of names. -/
def attributes : List String := [bindingNames, freeVariables]

/-- The field of a product that holds an attribute. -/
def attribute? (p : Product) (attr : String) : Option Field := p.fields.find? (·.name == attr)

/-- Whether a type is not that of sets of names. -/
def isNotNameSet (reg : Registry) (id : TypeId) : Bool :=
  match reg.shape id with
  | .nameSet => false
  | _ => true

/-- Whether no field but the attributes holds sets of names. -/
def keepsNames (reg : Registry) (steps : Nat) (p : Product) : Bool :=
  p.fields.all fun field =>
    attributes.contains field.name || reg.leavesSatisfy reg.isNotNameSet steps field.type

/-- The terms of the names bound. -/
def bindingTerms (typeName : String) : List (SetTerm String) :=
  if typeName = "IdentifierPattern" then [.name "name"]
  else (Node.bindingFields typeName).map (.take · bindingNames)

/-- Whether a product computes the names bound as its type says. -/
def bindsRight (typeName : String) (p : Product) : Bool :=
  match attribute? p bindingNames with
  | none => bindingTerms typeName = []
  | some field => termsOf? field = some (bindingTerms typeName)

/-- The field whose free variables a term takes. -/
def takenFree? : SetTerm String → Option String
  | .take field attr => if attr = freeVariables then some field else none
  | .name _ | .subtract _ _ | .exclude _ => none

/-- The terms of the free variables that are not those of children. -/
def ownTerms (typeName : String) : List (SetTerm String) :=
  ([("IdentifierExpression", [.name "name"]),
    ("AssignmentExpression", [.take "left" bindingNames]),
    ("ArrowFunctionExpression",
      [.subtract "parameters" bindingNames, .subtract "restParameter" bindingNames]),
    ("FunctionExpression",
      [.subtract "parameters" bindingNames, .subtract "restParameter" bindingNames,
        .subtract "id" bindingNames, .exclude (.ofList ["arguments"])])].lookup typeName).getD []

/-- The types of nodes in which nothing is mentioned. -/
def barren : List String :=
  ["PropertyName", "IdentifierPattern", "StringLiteral", "NumericLiteral", "BooleanLiteral",
    "NullLiteral", "TemplateElement", "Directive", "DirectiveLiteral", "ThisExpression"]

/-- Whether a type has no nodes in which something is mentioned. -/
def isBarren (reg : Registry) (id : TypeId) : Bool :=
  match reg.shape id with
  | .product _ => barren.contains (reg.name id)
  | _ => true

/-- Whether the nodes of a type carry their free variables or mention nothing. -/
def carriesFree (reg : Registry) (id : TypeId) : Bool :=
  match reg.shape id with
  | .product p => (attribute? p freeVariables).isSome || barren.contains (reg.name id)
  | _ => true

/-- Whether a product computes the free variables as its type says, and leaves out no
child. -/
def freesRight (reg : Registry) (steps : Nat) (typeName : String) (p : Product) : Bool :=
  match attribute? p freeVariables with
  | none => true
  | some field =>
    match termsOf? field with
    | none => false
    | some terms =>
      let taken := terms.filterMap takenFree?
      terms.filter (fun term => (takenFree? term).isNone) = ownTerms typeName &&
        taken.all (fun name => !attributes.contains name) &&
        p.fields.all fun field =>
          reg.leavesSatisfy reg.isBarren steps field.type ||
            taken.contains field.name && reg.leavesSatisfy reg.carriesFree steps field.type

/-- Whether nothing is mentioned in the nodes of a type that is said to be barren. -/
def barrenRight (reg : Registry) (steps : Nat) (typeName : String) (p : Product) : Bool :=
  !barren.contains typeName ||
    (typeName != "IdentifierExpression" && typeName != "AssignmentExpression" &&
      p.fields.all fun field => reg.leavesSatisfy reg.isBarren steps field.type)

/-- Whether a type has no nodes but identifier patterns. -/
def isIdentifierPattern (reg : Registry) (id : TypeId) : Bool :=
  match reg.shape id with
  | .product _ => reg.name id = "IdentifierPattern"
  | _ => true

/-- Whether a function has nothing but an identifier pattern for its name. -/
def namedRight (reg : Registry) (steps : Nat) (typeName : String) (p : Product) : Bool :=
  typeName != "FunctionExpression" ||
    p.fields.all fun field =>
      field.name != "id" || reg.leavesSatisfy reg.isIdentifierPattern steps field.type

/-- Whether all products compute their sets of names as their types say. -/
def scopesWithin (reg : Registry) (steps : Nat) : Bool :=
  reg.ids.all fun id =>
    match (reg.shape id).asProduct? with
    | some p =>
      reg.keepsNames steps p && bindsRight (reg.name id) p &&
        reg.freesRight steps (reg.name id) p && reg.barrenRight steps (reg.name id) p &&
        reg.namedRight steps (reg.name id) p
    | none => true

variable {reg : Registry} {steps : Nat} {n m : Node} {p : Product} {x : String}

/-! ### Fields of a node that is built -/

theorem BuiltAs.exists_field (h : reg.BuiltAs n p) {name : String} {v : Value}
    (hv : n.get? name = some v) :
    ∃ field ∈ p.fields, field.name = name ∧ reg.Leaves field.type v := by
  obtain ⟨field, hmem, hname, hleaves⟩ :=
    exists_of_forall₂_of_mem_right h.entries (mem_of_lookup_eq_some hv)
  exact ⟨field, hmem, hname.symm, hleaves⟩

theorem BuiltAs.exists_field_of_child (h : reg.BuiltAs n p) {name : String}
    (hm : n.Child name m) : ∃ field ∈ p.fields, field.name = name ∧ reg.Yields field.type m.id := by
  obtain ⟨v, hv, hm⟩ := hm
  obtain ⟨field, hmem, hname, hleaves⟩ := h.exists_field hv
  exact ⟨field, hmem, hname, hleaves.node m hm⟩

/-- The names that a field contributes are those of the children in it. -/
theorem BuiltAs.mem_namesUnder_iff (h : reg.BuiltAs n p) (hkeeps : reg.keepsNames steps p = true)
    {name attr : String} (hname : name ∉ attributes) :
    x ∈ (valueIn n.fields name).namesUnder attr ↔
      ∃ m, n.Child name m ∧ x ∈ m.toValue.namesUnder attr := by
  rw [valueIn]
  cases hv : n.fields.lookup name with
  | none =>
    show x ∈ NameSet.empty ↔ _
    constructor
    · intro hx
      exact absurd hx (NameSet.not_mem_empty x)
    · rintro ⟨m, ⟨v, hv', -⟩, -⟩
      rw [Node.get?, hv] at hv'
      cases hv'
  | some v =>
    -- A set held as a plain value would bring in names that belong to no child.
    have hno : ¬ v.HoldsNames := by
      intro hset
      obtain ⟨field, hmem, rfl, hleaves⟩ := h.exists_field hv
      obtain ⟨last, hlast, hshape⟩ := hleaves.names hset
      have hfield := List.all_eq_true.mp hkeeps field hmem
      rcases Bool.or_eq_true_iff.mp hfield with hattr | hleaf
      · exact hname (List.contains_iff_mem.mp hattr)
      · have hcheck := of_leavesSatisfy hleaf hlast (by simp [hshape, Shape.contents])
        simp [isNotNameSet, hshape] at hcheck
    rw [Option.getD_some, Value.mem_namesUnder hno]
    constructor
    · rintro ⟨m, hm, hx⟩
      exact ⟨m, ⟨v, hv, hm⟩, hx⟩
    · rintro ⟨m, ⟨v', hv', hm⟩, hx⟩
      rw [Node.get?, hv] at hv'
      cases hv'
      exact ⟨m, hm, hx⟩

theorem attribute?_isSome_of_get? (h : reg.BuiltAs n p) {attr : String} {v : Value}
    (hv : n.get? attr = some v) : ∃ field, attribute? p attr = some field := by
  obtain ⟨field, hmem, hname, -⟩ := h.exists_field hv
  refine Option.isSome_iff_exists.mp (List.find?_isSome.mpr ⟨field, hmem, ?_⟩)
  rw [hname, beq_self_eq_true]

/-- A set of names that is computed by terms is the set that the terms make of the values of
the fields. -/
theorem BuiltAs.attribute_spec (h : reg.BuiltAs n p) {attr : String} {field : Field}
    {terms : List (SetTerm String)} (hfield : attribute? p attr = some field)
    (hterms : termsOf? field = some terms) :
    ∃ set, n.get? attr = some (.names set) ∧ ∀ x, x ∈ set ↔
      (∃ term ∈ terms, x ∈ term.added (valueIn n.fields)) ∧
        ∀ term ∈ terms, x ∉ term.removed (valueIn n.fields) := by
  have hmem := List.mem_of_find?_eq_some hfield
  have hname : field.name = attr := by simpa using List.find?_some hfield
  rw [termsOf?] at hterms
  split at hterms
  · next expr hrule =>
    cases hterms
    obtain ⟨args, hargs, hv⟩ := h.satisfied field hmem _ hrule
    refine ⟨_, ?_, fun x => SetExpr.mem_evaluate⟩
    rw [Node.get?, ← hname, hv, Computed.evaluate_names hargs]
  · next set hrule =>
    split at hterms
    · next hempty =>
      cases hterms
      obtain ⟨args, -, hv⟩ := h.satisfied field hmem _ hrule
      refine ⟨set, ?_, fun x => ?_⟩
      · rw [Node.get?, ← hname, hv]
        rfl
      · rw [NameSet.mem_def, hempty]
        simp
    · cases hterms
  · cases hterms

theorem mem_namesUnder_of_get? {attr : String} {set : NameSet}
    (h : n.get? attr = some (.names set)) : x ∈ n.toValue.namesUnder attr ↔ x ∈ set := by
  rw [Value.mem_namesUnder_toValue]
  constructor
  · rintro ⟨set', h', hx⟩
    rw [h] at h'
    cases h'
    exact hx
  · intro hx
    exact ⟨set, h, hx⟩

theorem mem_added_name_iff : x ∈ (SetTerm.name "name").added (valueIn n.fields) ↔ n.IsNamed x := by
  rw [SetTerm.added, valueIn, Node.IsNamed, Node.get?]
  cases hv : n.fields.lookup "name" with
  | none => simp
  | some v => cases v <;> simp [eq_comm]

/-! ### Bound names -/

theorem of_scopesWithin (h : reg.scopesWithin steps = true) {id : TypeId}
    (hp : reg.shape id = .product p) :
    reg.keepsNames steps p = true ∧ bindsRight (reg.name id) p = true ∧
      reg.freesRight steps (reg.name id) p = true ∧ reg.barrenRight steps (reg.name id) p = true ∧
      reg.namedRight steps (reg.name id) p = true := by
  have hid := List.all_eq_true.mp h id (mem_ids_of_shape_ne (by simp [hp]))
  simp only [hp, Shape.asProduct?, Bool.and_eq_true] at hid
  obtain ⟨⟨⟨⟨hkeeps, hbinds⟩, hfrees⟩, hbarren⟩, hnamed⟩ := hid
  exact ⟨hkeeps, hbinds, hfrees, hbarren, hnamed⟩

theorem not_mem_attributes_of_mem_bindingFields {name t : String}
    (h : name ∈ Node.bindingFields t) : name ∉ attributes := by
  have hall : ∀ entry ∈ Node.bindingEdges, ∀ name ∈ entry.2, name ∉ attributes := by decide
  rw [Node.bindingFields] at h
  cases hnames : Node.bindingEdges.lookup t with
  | none =>
    rw [hnames] at h
    cases h
  | some names =>
    rw [hnames] at h
    exact hall _ (mem_of_lookup_eq_some hnames) name h

/-- The names that the terms of a pattern add are those that it binds. -/
theorem BuiltAs.mem_bindingTerms_iff (h : reg.BuiltAs n p)
    (hkeeps : reg.keepsNames steps p = true)
    (ih : ∀ name m, n.Child name m → (x ∈ m.toValue.namesUnder bindingNames ↔ m.Binds x)) :
    ((∃ term ∈ bindingTerms n.typeName, x ∈ term.added (valueIn n.fields)) ∧
      ∀ term ∈ bindingTerms n.typeName, x ∉ term.removed (valueIn n.fields)) ↔ n.Binds x := by
  by_cases ht : n.typeName = "IdentifierPattern"
  · rw [Node.binds_iff_of_identifier ht, bindingTerms, if_pos ht]
    simp only [List.mem_singleton, exists_eq_left, forall_eq, mem_added_name_iff,
      and_iff_left_iff_imp]
    intro _
    exact NameSet.not_mem_empty x
  · rw [Node.binds_iff, bindingTerms, if_neg ht]
    constructor
    · rintro ⟨⟨term, hterm, hx⟩, -⟩
      obtain ⟨name, hname, rfl⟩ := List.mem_map.mp hterm
      have hattr := not_mem_attributes_of_mem_bindingFields hname
      obtain ⟨m, hm, hx⟩ := (h.mem_namesUnder_iff hkeeps hattr).mp hx
      exact .inr ⟨name, hname, m, hm, (ih name m hm).mp hx⟩
    · rintro (⟨ht', -⟩ | ⟨name, hname, m, hm, hx⟩)
      · exact absurd ht' ht
      · have hattr := not_mem_attributes_of_mem_bindingFields hname
        refine ⟨⟨.take name bindingNames, List.mem_map_of_mem hname,
          (h.mem_namesUnder_iff hkeeps hattr).mpr ⟨m, hm, (ih name m hm).mpr hx⟩⟩, ?_⟩
        intro term hterm
        obtain ⟨name', -, rfl⟩ := List.mem_map.mp hterm
        exact NameSet.not_mem_empty x

/-- The names that a node holds as bound are those that it binds. -/
theorem mem_bindingNames_iff (hscopes : reg.scopesWithin steps = true) (n : Node)
    (hbuilt : ∀ m : Node, m.OccursIn n.toValue → reg.Built m) :
    x ∈ n.toValue.namesUnder bindingNames ↔ n.Binds x := by
  -- From the children up: what the children hold is known, and the terms of the node put it
  -- together.
  induction n using Node.child_induction with
  | step n ih =>
    obtain ⟨p, hp⟩ := hbuilt n (.here n)
    obtain ⟨hkeeps, hbinds, -⟩ := of_scopesWithin hscopes hp.shape
    have hterms := hp.mem_bindingTerms_iff hkeeps fun name m hm =>
      ih name m hm fun o ho => hbuilt o (hm.occursIn ho)
    rw [← hterms]
    rw [bindsRight, ← hp.typeName] at hbinds
    cases hattr : attribute? p bindingNames with
    | none =>
      rw [hattr, decide_eq_true_eq] at hbinds
      rw [hbinds, Value.mem_namesUnder_toValue]
      simp only [List.not_mem_nil, false_and, exists_false]
      -- Without the attribute there is no set, and no term that binds.
      constructor
      · rintro ⟨set, hset, -⟩
        obtain ⟨field, hfield⟩ := attribute?_isSome_of_get? hp hset
        rw [hattr] at hfield
        cases hfield
      · exact False.elim
    | some field =>
      rw [hattr, decide_eq_true_eq] at hbinds
      obtain ⟨set, hset, hspec⟩ := hp.attribute_spec hattr hbinds
      rw [mem_namesUnder_of_get? hset, hspec]

/-! ### Free names -/

/-- The terms of a node by its type. -/
theorem ownTerms_cases (t : String) :
    t = "IdentifierExpression" ∧ ownTerms t = [.name "name"] ∨
    t = "AssignmentExpression" ∧ ownTerms t = [.take "left" bindingNames] ∨
    t = "ArrowFunctionExpression" ∧ ownTerms t =
      [.subtract "parameters" bindingNames, .subtract "restParameter" bindingNames] ∨
    t = "FunctionExpression" ∧ ownTerms t =
      [.subtract "parameters" bindingNames, .subtract "restParameter" bindingNames,
        .subtract "id" bindingNames, .exclude (.ofList ["arguments"])] ∨
    (t ∉ ["IdentifierExpression", "AssignmentExpression", "ArrowFunctionExpression",
      "FunctionExpression"]) ∧ ownTerms t = [] := by
  by_cases h₁ : t = "IdentifierExpression"
  · subst h₁
    exact .inl ⟨rfl, rfl⟩
  by_cases h₂ : t = "AssignmentExpression"
  · subst h₂
    exact .inr (.inl ⟨rfl, rfl⟩)
  by_cases h₃ : t = "ArrowFunctionExpression"
  · subst h₃
    exact .inr (.inr (.inl ⟨rfl, rfl⟩))
  by_cases h₄ : t = "FunctionExpression"
  · subst h₄
    exact .inr (.inr (.inr (.inl ⟨rfl, rfl⟩)))
  · refine .inr (.inr (.inr (.inr ⟨by simp [h₁, h₂, h₃, h₄], ?_⟩)))
    simp only [ownTerms, List.lookup_cons, beq_false_of_ne h₁, beq_false_of_ne h₂,
      beq_false_of_ne h₃, beq_false_of_ne h₄]
    rfl

section

variable (hp : reg.BuiltAs n p) (hkeeps : reg.keepsNames steps p = true)
  (hbinds : ∀ name m, n.Child name m → (x ∈ m.toValue.namesUnder bindingNames ↔ m.Binds x))
include hp hkeeps hbinds

theorem mem_bound_iff (name : String) (hname : name ∉ attributes) :
    x ∈ (valueIn n.fields name).namesUnder bindingNames ↔ ∃ m, n.Child name m ∧ m.Binds x := by
  rw [hp.mem_namesUnder_iff hkeeps hname]
  constructor
  · rintro ⟨m, hm, hx⟩
    exact ⟨m, hm, (hbinds name m hm).mp hx⟩
  · rintro ⟨m, hm, hx⟩
    exact ⟨m, hm, (hbinds name m hm).mpr hx⟩

/-- What a node adds by itself is what it mentions. -/
theorem mem_own_added_iff :
    (∃ term ∈ ownTerms n.typeName, x ∈ term.added (valueIn n.fields)) ↔ n.Mentions x := by
  rw [Node.Mentions]
  rcases ownTerms_cases n.typeName with ⟨ht, hown⟩ | ⟨ht, hown⟩ | ⟨ht, hown⟩ | ⟨ht, hown⟩ |
    ⟨ht, hown⟩
  · rw [hown, ht]
    simp [mem_added_name_iff]
  · rw [hown, ht]
    simp only [List.mem_singleton, exists_eq_left, SetTerm.added]
    rw [mem_bound_iff hp hkeeps hbinds "left" (by decide)]
    simp
  · rw [hown, ht]
    simp [SetTerm.added]
  · rw [hown, ht]
    simp [SetTerm.added]
  · rw [hown]
    simp only [List.mem_cons, not_or] at ht
    simp [ht.1, ht.2.1]

/-- What a node takes away is what it captures. -/
theorem mem_own_removed_iff (hnamed : reg.namedRight steps n.typeName p = true)
    (hbuilt : ∀ name m, n.Child name m → reg.Built m) :
    (∃ term ∈ ownTerms n.typeName, x ∈ term.removed (valueIn n.fields)) ↔ n.Captures x := by
  have hparams := mem_bound_iff hp hkeeps hbinds "parameters" (by decide)
  have hrest := mem_bound_iff hp hkeeps hbinds "restParameter" (by decide)
  have hid := mem_bound_iff hp hkeeps hbinds "id" (by decide)
  rw [Node.Captures]
  rcases ownTerms_cases n.typeName with ⟨ht, hown⟩ | ⟨ht, hown⟩ | ⟨ht, hown⟩ | ⟨ht, hown⟩ |
    ⟨ht, hown⟩
  · rw [hown, ht]
    simp [SetTerm.removed]
  · rw [hown, ht]
    simp [SetTerm.removed]
  · rw [hown, ht]
    simp [SetTerm.removed, hparams, hrest]
  · have hname : ∀ m, n.Child "id" m → (m.Binds x ↔ m.IsNamed x) := by
      intro m hm
      refine Node.binds_iff_of_identifier ?_
      obtain ⟨field, hmem, hfield, hyields⟩ := hp.exists_field_of_child hm
      obtain ⟨q, hq⟩ := hbuilt "id" m hm
      rw [namedRight, ht] at hnamed
      simp only [bne_self_eq_false, Bool.false_or] at hnamed
      have hleaf := List.all_eq_true.mp hnamed field hmem
      rw [hfield] at hleaf
      simp only [bne_self_eq_false, Bool.false_or] at hleaf
      have hcheck := of_leavesSatisfy hleaf hyields (by simp [hq.shape, Shape.contents])
      rw [hq.typeName]
      simpa [isIdentifierPattern, hq.shape] using hcheck
    -- The name of a function is an identifier, which binds just its own name.
    have hid' : (∃ m, n.Child "id" m ∧ m.Binds x) ↔ ∃ m, n.Child "id" m ∧ m.IsNamed x := by
      constructor
      · rintro ⟨m, hm, hx⟩
        exact ⟨m, hm, (hname m hm).mp hx⟩
      · rintro ⟨m, hm, hx⟩
        exact ⟨m, hm, (hname m hm).mpr hx⟩
    rw [hown, ht]
    simp [SetTerm.removed, hparams, hrest, hid, hid', or_assoc]
  · rw [hown]
    simp only [List.mem_cons, not_or] at ht
    simp [ht.2.2.1, ht.2.2.2.1]

end

/-- Nothing is free in a node of a barren type. -/
theorem not_free_of_barren (hscopes : reg.scopesWithin steps = true) (n : Node)
    (hbuilt : ∀ m : Node, m.OccursIn n.toValue → reg.Built m) (hn : n.typeName ∈ barren) :
    ¬ n.Free x := by
  -- Barren types lead to barren types only, so nothing is mentioned further down either.
  induction n using Node.child_induction with
  | step n ih =>
    obtain ⟨p, hp⟩ := hbuilt n (.here n)
    obtain ⟨-, -, -, hbarren, -⟩ := of_scopesWithin hscopes hp.shape
    rw [barrenRight, ← hp.typeName, List.contains_iff_mem.mpr hn] at hbarren
    simp only [Bool.not_true, Bool.false_or, Bool.and_eq_true, bne_iff_ne] at hbarren
    obtain ⟨⟨href, hassign⟩, hfields⟩ := hbarren
    rw [Node.free_iff]
    rintro ⟨-, hmention | ⟨name, m, hm, hfree⟩⟩
    · rcases hmention with ⟨ht, -⟩ | ⟨ht, -⟩
      · exact href ht
      · exact hassign ht
    · obtain ⟨q, hq⟩ := hbuilt m (hm.occursIn (.here m))
      obtain ⟨field, hmem, -, hyields⟩ := hp.exists_field_of_child hm
      have hcheck := of_leavesSatisfy (List.all_eq_true.mp hfields field hmem) hyields
        (by simp [hq.shape, Shape.contents])
      rw [isBarren, hq.shape, ← hq.typeName] at hcheck
      exact ih name m hm (fun o ho => hbuilt o (hm.occursIn ho))
        (List.contains_iff_mem.mp hcheck) hfree

theorem mem_terms_iff {terms own : List (SetTerm String)}
    (h : terms.filter (fun term => (takenFree? term).isNone) = own) {term : SetTerm String} :
    term ∈ terms ↔
      (∃ name ∈ terms.filterMap takenFree?, term = .take name freeVariables) ∨ term ∈ own := by
  have htake : ∀ {term name}, takenFree? term = some name → term = .take name freeVariables := by
    intro term name hterm
    cases term with
    | take field attr =>
      rw [takenFree?] at hterm
      split at hterm
      · next hattr =>
        cases hterm
        rw [hattr]
      · cases hterm
    | name | subtract | exclude => cases hterm
  rw [← h, List.mem_filter]
  constructor
  · intro hterm
    cases hfree : takenFree? term with
    | none => exact .inr ⟨hterm, by simp⟩
    | some name =>
      exact .inl ⟨name, List.mem_filterMap.mpr ⟨term, hterm, hfree⟩, htake hfree⟩
  · rintro (⟨name, hname, rfl⟩ | ⟨hterm, -⟩)
    · obtain ⟨term, hterm, hfree⟩ := List.mem_filterMap.mp hname
      rwa [← htake hfree]
    · exact hterm

/-- What a product computes as free variables, once its check is decoded. -/
theorem of_freesRight {t : String} (h : reg.freesRight steps t p = true) {field : Field}
    (hattr : attribute? p freeVariables = some field) :
    ∃ (terms : List (SetTerm String)) (taken : List String), termsOf? field = some terms ∧
      (∀ term, term ∈ terms ↔
        (∃ name ∈ taken, term = .take name freeVariables) ∨ term ∈ ownTerms t) ∧
      (∀ name ∈ taken, name ∉ attributes) ∧
      ∀ field ∈ p.fields, reg.leavesSatisfy reg.isBarren steps field.type = true ∨
        field.name ∈ taken ∧ reg.leavesSatisfy reg.carriesFree steps field.type = true := by
  rw [freesRight, hattr] at h
  dsimp only at h
  split at h
  · cases h
  · next terms hterms =>
    simp only [Bool.and_eq_true, decide_eq_true_eq] at h
    obtain ⟨⟨hown, htaken⟩, hfields⟩ := h
    refine ⟨terms, terms.filterMap takenFree?, hterms, fun term => mem_terms_iff hown, ?_, ?_⟩
    · intro name hname hattr
      have hno := List.all_eq_true.mp htaken name hname
      rw [List.contains_iff_mem.mpr hattr] at hno
      cases hno
    · intro field hmem
      have hfield := List.all_eq_true.mp hfields field hmem
      simpa only [Bool.or_eq_true, Bool.and_eq_true, List.contains_iff_mem] using hfield

/-- A child in which a name is free stands in a field whose free variables are taken, and
carries its own. -/
theorem BuiltAs.taken_of_free (hp : reg.BuiltAs n p) (hscopes : reg.scopesWithin steps = true)
    {name : String} (hm : n.Child name m)
    (hbuilt : ∀ o : Node, o.OccursIn m.toValue → reg.Built o) (hfree : m.Free x)
    {taken : List String}
    (hfields : ∀ field ∈ p.fields, reg.leavesSatisfy reg.isBarren steps field.type = true ∨
      field.name ∈ taken ∧ reg.leavesSatisfy reg.carriesFree steps field.type = true) :
    name ∈ taken ∧ ∃ q, reg.BuiltAs m q ∧ (attribute? q freeVariables).isSome = true := by
  obtain ⟨q, hq⟩ := hbuilt m (.here m)
  have hleaf : (reg.shape m.id).contents = [] := by simp [hq.shape, Shape.contents]
  -- A name is free in the child, so its type is not barren: the field is taken.
  have hno : barren.contains (reg.name m.id) ≠ true := by
    intro hbarren
    rw [← hq.typeName] at hbarren
    exact not_free_of_barren hscopes m hbuilt (List.contains_iff_mem.mp hbarren) hfree
  obtain ⟨field, hmem, rfl, hyields⟩ := hp.exists_field_of_child hm
  rcases hfields field hmem with hbarren | ⟨htaken, hcarries⟩
  · have hcheck := of_leavesSatisfy hbarren hyields hleaf
    rw [isBarren, hq.shape] at hcheck
    exact absurd hcheck hno
  · have hcheck := of_leavesSatisfy hcarries hyields hleaf
    rw [carriesFree, hq.shape] at hcheck
    rcases Bool.or_eq_true_iff.mp hcheck with hsome | hbarren
    · exact ⟨htaken, q, hq, hsome⟩
    · exact absurd hbarren hno

/-- The names that a node holds as free are those that are free in it. -/
theorem mem_freeVariables_iff (hscopes : reg.scopesWithin steps = true) (n : Node) :
    (∀ m : Node, m.OccursIn n.toValue → reg.Built m) → ∀ p, reg.BuiltAs n p →
      (attribute? p freeVariables).isSome = true →
        (x ∈ n.toValue.namesUnder freeVariables ↔ n.Free x) := by
  -- Both sides by one node: the terms of the set against `free_iff`. A child that carries no
  -- set is barren, so that nothing is lost by leaving it out.
  induction n using Node.child_induction with
  | step n ih =>
    intro hbuilt p hp hcarries
    obtain ⟨field, hattr⟩ := Option.isSome_iff_exists.mp hcarries
    obtain ⟨hkeeps, -, hfrees, -, hnamed⟩ := of_scopesWithin hscopes hp.shape
    rw [← hp.typeName] at hfrees hnamed
    obtain ⟨terms, taken, hterms, hmem, htaken, hfields⟩ := of_freesRight hfrees hattr
    obtain ⟨set, hset, hspec⟩ := hp.attribute_spec hattr hterms
    have hbelow : ∀ {name m}, n.Child name m → ∀ o : Node, o.OccursIn m.toValue → reg.Built o :=
      fun hm o ho => hbuilt o (hm.occursIn ho)
    have hbinds : ∀ name m, n.Child name m →
        (x ∈ m.toValue.namesUnder bindingNames ↔ m.Binds x) :=
      fun name m hm => mem_bindingNames_iff hscopes m (hbelow hm)
    have hadded := mem_own_added_iff hp hkeeps hbinds
    have hremoved := mem_own_removed_iff hp hkeeps hbinds hnamed
      fun name m hm => hbelow hm m (.here m)
    rw [mem_namesUnder_of_get? hset, hspec, Node.free_iff, ← hremoved, ← hadded]
    constructor
    · rintro ⟨⟨term, hterm, hx⟩, hnot⟩
      -- A term of the node itself, or one that takes what is free in a child.
      refine ⟨?_, ?_⟩
      · rintro ⟨term, hterm, hx⟩
        exact hnot term ((hmem term).mpr (.inr hterm)) hx
      · rcases (hmem term).mp hterm with ⟨name, hname, rfl⟩ | hown
        · obtain ⟨m, hm, hx⟩ := (hp.mem_namesUnder_iff hkeeps (htaken name hname)).mp hx
          obtain ⟨q, hq⟩ := hbelow hm m (.here m)
          obtain ⟨set, hset, -⟩ := Value.mem_namesUnder_toValue.mp hx
          obtain ⟨attr, hattr⟩ := attribute?_isSome_of_get? hq hset
          have hiff := ih name m hm (hbelow hm) q hq (by rw [hattr]; rfl)
          exact .inr ⟨name, m, hm, hiff.mp hx⟩
        · exact .inl ⟨term, hown, hx⟩
    · rintro ⟨hnot, hx⟩
      constructor
      · rcases hx with ⟨term, hown, hx⟩ | ⟨name, m, hm, hfree⟩
        · exact ⟨term, (hmem term).mpr (.inr hown), hx⟩
        · obtain ⟨hname, q, hq, hsome⟩ := hp.taken_of_free hscopes hm (hbelow hm) hfree hfields
          have hiff := ih name m hm (hbelow hm) q hq hsome
          refine ⟨.take name freeVariables, (hmem _).mpr (.inl ⟨name, hname, rfl⟩), ?_⟩
          exact (hp.mem_namesUnder_iff hkeeps (htaken name hname)).mpr ⟨m, hm, hiff.mpr hfree⟩
      · intro term hterm hx
        rcases (hmem term).mp hterm with ⟨name, -, rfl⟩ | hown
        · exact NameSet.not_mem_empty x hx
        · exact hnot ⟨term, hown, hx⟩

/-- A set that a node of a registry with the check holds is the one that its names are
read from. -/
theorem exists_names_of_get? (hscopes : reg.scopesWithin steps = true) (hp : reg.BuiltAs n p)
    {attr : String} (hattr : attr ∈ attributes) {v : Value} (hv : n.get? attr = some v) :
    (attribute? p attr).isSome = true ∧
      ∃ set, v = .names set ∧ ∀ x, x ∈ set ↔ x ∈ n.toValue.namesUnder attr := by
  obtain ⟨field, hfield⟩ := attribute?_isSome_of_get? hp hv
  obtain ⟨-, hbinds, hfrees, -⟩ := of_scopesWithin hscopes hp.shape
  have hterms : ∃ terms, termsOf? field = some terms := by
    rcases List.mem_pair.mp hattr with rfl | rfl
    · rw [bindsRight, hfield, decide_eq_true_eq] at hbinds
      exact ⟨_, hbinds⟩
    · obtain ⟨terms, -, hterms, -⟩ := of_freesRight hfrees hfield
      exact ⟨terms, hterms⟩
  obtain ⟨terms, hterms⟩ := hterms
  obtain ⟨set, hset, -⟩ := hp.attribute_spec hfield hterms
  rw [hset] at hv
  cases hv
  exact ⟨by rw [hfield]; rfl, set, rfl, fun x => (mem_namesUnder_of_get? hset).symm⟩

end Registry

/-! ### The catalogue -/

namespace Catalogue

/-- The catalogue passes the checks on which its scopes rest. -/
theorem full_scopes : ∃ reg, full = .ok reg ∧ reg.populatesWithin 8 = true ∧
    reg.handsOverWithin 8 = true ∧ reg.scopesWithin 8 = true := by
  obtain ⟨reg, hreg, hcheck⟩ : ∃ reg, full = .ok reg ∧
      (reg.populatesWithin 8 && reg.handsOverWithin 8 && reg.scopesWithin 8) = true :=
    exists_of_check (by decide +kernel)
  simp only [Bool.and_eq_true, and_assoc] at hcheck
  exact ⟨reg, hreg, hcheck⟩

/-- In whatever the catalogue translates, a node that carries bound names carries those that
it binds, and a node that carries free variables carries the names that are free in it. Both are
said of the node by itself: an occurrence on the left of an assignment counts for the nodes that
have the assignment in their own subtree, and not for those inside its left side. -/
theorem scoping : ∃ reg, full = .ok reg ∧
    ∀ (limit : Nat) (id : TypeId) (source : Json) (v : Value),
      reg.translate limit id source = .ok v → ∀ n : Node, n.OccursIn v →
        (∀ w, n.get? bindingNames = some w →
          ∃ set, w = .names set ∧ ∀ x, x ∈ set ↔ n.Binds x) ∧
        ∀ w, n.get? freeVariables = some w →
          ∃ set, w = .names set ∧ ∀ x, x ∈ set ↔ n.Free x := by
  obtain ⟨reg, hreg, hpop, hhand, hscopes⟩ := full_scopes
  refine ⟨reg, hreg, fun limit id source v hv n hn => ?_⟩
  obtain ⟨b, hb⟩ := exists_freeze_of_freezeBuilt hreg
  have hbuilt : ∀ m : Node, m.OccursIn n.toValue → reg.Built m :=
    fun m hm => Registry.built_of_translate hb hpop hhand hv (hm.trans hn)
  obtain ⟨p, hp⟩ := hbuilt n (.here n)
  constructor
  · intro w hw
    obtain ⟨-, set, rfl, hset⟩ := Registry.exists_names_of_get? hscopes hp (by decide) hw
    exact ⟨set, rfl, fun x => (hset x).trans (Registry.mem_bindingNames_iff hscopes n hbuilt)⟩
  · intro w hw
    obtain ⟨hsome, set, rfl, hset⟩ := Registry.exists_names_of_get? hscopes hp (by decide) hw
    exact ⟨set, rfl, fun x =>
      (hset x).trans (Registry.mem_freeVariables_iff hscopes n hbuilt p hp hsome)⟩

/-- In an arrow function of one parameter that returns another name, only that other name
is free. -/
theorem scoping_arrow : ∃ (reg : Registry) (v : Value) (n : Node) (set : NameSet),
    full = .ok reg ∧
    reg.translate 9 ⟨41⟩ (.obj [("type", .str "ArrowFunctionExpression"),
      ("params", .arr [.obj [("type", .str "Identifier"), ("name", .str "x")]]),
      ("body", .obj [("type", .str "Identifier"), ("name", .str "y")])]) = .ok v ∧
    n.OccursIn v ∧ n.get? freeVariables = some (.names set) ∧ set = .ofList ["y"] ∧
    ∀ x, x ∈ set ↔ n.Free x := by
  obtain ⟨reg, hreg, hcheck⟩ : ∃ reg, full = .ok reg ∧
      reg.translatesWithin 9 9 ⟨41⟩ (.obj [("type", .str "ArrowFunctionExpression"),
        ("params", .arr [.obj [("type", .str "Identifier"), ("name", .str "x")]]),
        ("body", .obj [("type", .str "Identifier"), ("name", .str "y")])])
        (fun v => (v.asNode?.bind fun n => (n.get? freeVariables).bind Value.asNames?) =
          some (NameSet.ofList ["y"])) = true :=
    exists_of_check (by decide +kernel)
  obtain ⟨v, hv, hfree⟩ := Registry.exists_of_translatesWithin hcheck
  rw [decide_eq_true_eq, Option.bind_eq_some_iff] at hfree
  obtain ⟨n, hn, hfree⟩ := hfree
  obtain ⟨w, hw, hset⟩ := Option.bind_eq_some_iff.mp hfree
  cases w <;> cases hset
  obtain rfl := Value.eq_of_asNode?_eq_some hn
  obtain ⟨reg', hreg', hscoping⟩ := scoping
  rw [hreg] at hreg'
  cases hreg'
  have hn := Node.OccursIn.here n
  obtain ⟨set, heq, hspec⟩ := (hscoping _ _ _ _ hv n hn).2 _ hw
  cases heq
  exact ⟨reg, n.toValue, n, _, hreg, hv, hn, hw, rfl, hspec⟩

end Catalogue

end TypedTree
