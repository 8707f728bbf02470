/-
Typing of translated values.

A typing relates types and values; it is closed under what a translation does if every
value that a translation builds from related parts is related to its type. Main
statements:

* `Registry.Typing` — a relation that is closed under translation;
* `Registry.Typing.answer` — every answer is related to the type that was asked for;
* `Node.OccursIn` — a node somewhere inside a value.

Design notes: a relation speaks of whole values, so that it can say something about every
node inside. A value that an inspect shape hands over is not built again: it was related
to the probed type, and it is only checked to be an instance of the type of the field that
takes it. What is asked of a typing there is a condition of its own.
-/
import TypedTree.Proofs.Schema.Check
import TypedTree.Proofs.Schema.Evaluation
import TypedTree.Proofs.Schema.Freeze
import TypedTree.Proofs.Translation.Request

namespace TypedTree

/-! ### Nodes inside a value -/

/-- A node occurs in a value: it is the value, or occurs in an item or in a field. -/
inductive Node.OccursIn : Node → Value → Prop
  | here (n : Node) : OccursIn n n.toValue
  | item {n : Node} {v : Value} {items : List Value} (mem : v ∈ items) (h : OccursIn n v) :
      OccursIn n (.list items)
  | field {n m : Node} {name : String} {v : Value} (mem : (name, v) ∈ m.fields)
      (h : OccursIn n v) : OccursIn n m.toValue

namespace Node

variable {n m : Node}

theorem occursIn_list_iff {items : List Value} :
    n.OccursIn (.list items) ↔ ∃ v ∈ items, n.OccursIn v := by
  constructor
  · generalize hv : Value.list items = v
    intro h
    cases h with
    | here => cases hv
    | item mem h =>
      cases hv
      exact ⟨_, mem, h⟩
    | field => cases hv
  · rintro ⟨v, mem, h⟩
    exact .item mem h

theorem occursIn_toValue_iff :
    n.OccursIn m.toValue ↔ n = m ∨ ∃ name v, (name, v) ∈ m.fields ∧ n.OccursIn v := by
  constructor
  · generalize hv : m.toValue = v
    intro h
    cases h with
    | here =>
      cases m
      cases n
      cases hv
      exact .inl rfl
    | item => cases hv
    | @field m' name v mem h =>
      cases m
      cases m'
      cases hv
      exact .inr ⟨name, v, mem, h⟩
  · rintro (rfl | ⟨name, v, mem, h⟩)
    · exact .here n
    · exact .field mem h

/-- What occurs in a node that occurs in a value, occurs in the value. -/
theorem OccursIn.trans {v : Value} (h : n.OccursIn m.toValue) (hm : m.OccursIn v) :
    n.OccursIn v := by
  induction hm with
  | here => exact h
  | item mem _ ih => exact .item mem ih
  | field mem _ ih => exact .field mem ih

end Node

theorem Value.eq_of_asNode?_eq_some {v : Value} {n : Node} (h : v.asNode? = some n) :
    v = n.toValue := by
  cases v <;> cases h
  rfl

/-- A value without lists, sets and nodes. -/
inductive Value.Plain : Value → Prop
  | null : Plain .null
  | bool (b : Bool) : Plain (.bool b)
  | number (n : Number) : Plain (.number n)
  | string (s : String) : Plain (.string s)
  | any (source : Json) : Plain (.any source)

theorem Value.Plain.not_occursIn {v : Value} {n : Node} (h : v.Plain) : ¬ n.OccursIn v := by
  intro hn
  cases hn <;> cases h

/-- Values of a kind have no parts, unless they may be anything. -/
theorem Primitive.plain_of_holds {kind : Primitive} {v : Value} (hkind : kind ≠ .any)
    (h : kind.holds v = true) : v.Plain := by
  cases kind with
  | any => exact absurd rfl hkind
  | string =>
    cases v <;> simp only [holds, Bool.false_eq_true] at h
    exact .string _
  | number =>
    cases v <;> simp only [holds, Bool.false_eq_true] at h
    exact .number _
  | boolean =>
    cases v <;> simp only [holds, Bool.false_eq_true] at h
    exact .bool _
  | null =>
    cases v <;> simp only [holds, Bool.false_eq_true] at h
    exact .null

theorem Value.not_occursIn_names {set : NameSet} {n : Node} : ¬ n.OccursIn (.names set) := by
  intro hn
  cases hn

namespace Registry

variable {reg : Registry} {limit : Nat} {r : Request}

/-! ### Closed relations -/

/-- A relation that holds of plain values and sets of names by the shape of the type, of
lists by their items, and of a type if it holds of one at the same source value. -/
structure Structural (reg : Registry) (T : TypeId → Value → Prop) : Prop where
  plain : ∀ {id kind v}, reg.shape id = .primitive kind → kind.holds v = true → v.Plain → T id v
  names : ∀ {id set}, reg.shape id = .nameSet → T id (.names set)
  list : ∀ {id item vs}, reg.shape id = .array item → (∀ v ∈ vs, T item v) → T id (.list vs)
  null : ∀ {id inner}, reg.shape id = .nullable inner → T id .null
  step : ∀ {id next v}, next ∈ (reg.shape id).samePath → T next v → T id v

/-- Defaults are related to the types of their fields, and computed fields make related
values of related ones. -/
structure Populated (reg : Registry) (T : TypeId → Value → Prop) : Prop where
  default : ∀ {id p field v}, reg.shape id = .product p → field ∈ p.fields →
    field.population = .default v → T field.type v
  rule : ∀ {id p}, reg.shape id = .product p → p.Preserves fun field v => T field.type v

/-- A relation between types and values that is closed under translation. -/
structure Typing (reg : Registry) (T : TypeId → Value → Prop) : Prop extends
    Structural reg T, Populated reg T where
  /-- A value that was probed and fits a field of a product that may take it. -/
  handed : ∀ {id i last p field v}, reg.shape id = .inspect i → reg.SamePath id last →
    reg.shape last = .product p → field ∈ p.fields → field.source = .key i.field →
    T i.probe v → reg.isInstance field.type v = true → T field.type v
  node : ∀ {id p entries metadata}, reg.shape id = .product p →
    List.Forall₂ (fun field entry => entry.1 = field.name ∧ T field.type entry.2) p.fields
      entries → p.Satisfied entries → T id (.node id (reg.name id) entries metadata)

/-- The value that stands ready is related to the fields that may take it. -/
def Ready (reg : Registry) (T : TypeId → Value → Prop) (r : Request) : Prop :=
  ∀ preset, r.preset = some preset → ∀ {last p field}, reg.SamePath r.id last →
    reg.shape last = .product p → field ∈ p.fields → field.source = .key preset.key →
    reg.isInstance field.type preset.value = true → T field.type preset.value

/-- The computed fields of every product have their plan. -/
def Planned (reg : Registry) : Prop :=
  ∀ {id p}, reg.shape id = .product p → p.plan (reg.name id) = .ok (reg.plan id)

/-! ### Answers -/

theorem holds_ofLiteral {kind : Primitive} {value : Json} (hkind : kind ≠ .any)
    (h : kind.accepts value = true) : kind.holds (.ofLiteral value) = true := by
  cases kind with
  | any => exact absurd rfl hkind
  | string | number | boolean | null =>
    cases value <;> simp only [Primitive.accepts, Bool.false_eq_true] at h
    rfl

theorem of_translatePrimitive_eq_ok {id : TypeId} {kind : Primitive} {source : Option Json}
    {path : Path} {v : Value} (h : reg.translatePrimitive id kind source path = .ok v) :
    kind.holds v = true ∧ v.Plain := by
  unfold translatePrimitive at h
  split at h
  · cases h
    exact ⟨rfl, .null⟩
  · cases h
    exact ⟨rfl, .null⟩
  · cases h
    exact ⟨rfl, .any _⟩
  · next value hnot =>
    split at h
    · next hacc =>
      cases h
      have hkind : kind ≠ .any := hnot
      have hholds := holds_ofLiteral hkind hacc
      exact ⟨hholds, Primitive.plain_of_holds hkind hholds⟩
    · cases h
  · cases h

theorem of_translateNames_eq_ok {id : TypeId} {source : Option Json} {path : Path} {v : Value}
    (h : reg.translateNames id source path = .ok v) : ∃ set, v = .names set := by
  unfold translateNames at h
  split at h
  · next items =>
    cases hset : collectNames path items 0 .empty with
    | error e =>
      rw [hset] at h
      cases h
    | ok set =>
      rw [hset] at h
      cases h
      exact ⟨set, rfl⟩
  · cases h

variable {T : TypeId → Value → Prop}

theorem ready_of_preset_eq_none (h : r.preset = none) : reg.Ready T r := by
  intro preset hpreset
  rw [h] at hpreset
  cases hpreset

/-- A type at the same source value gets what stands ready along with the source. -/
theorem Ready.as (h : reg.Ready T r) {next : TypeId} (hnext : next ∈ (reg.shape r.id).samePath) :
    reg.Ready T (r.as next) :=
  fun preset hpreset => fun hlast => h preset hpreset (.step hnext hlast)

namespace Typing

variable (hT : reg.Typing T)
include hT

/-- The value of a field is related to its type. -/
theorem answerField {p : Product} {record : Json.Record} {field : Field} {v : Value}
    (hshape : reg.shape r.id = .product p) (hmem : field ∈ p.fields) (hready : reg.Ready T r)
    (hpart : ∀ source path v, reg.answer limit (r.part field.type source path) = .ok v →
      T field.type v)
    (hv : reg.answerField limit r record field = .ok v) : T field.type v := by
  rcases of_answerField_eq_ok hv with hdefault | ⟨preset, hpreset, hkey, hinst, rfl⟩ |
    ⟨source, path, hanswer⟩
  · exact hT.default hshape hmem hdefault
  · exact hready preset hpreset (.refl _) hshape hmem hkey hinst
  · exact hpart source path v hanswer

/-- Every answer is related to the type that was asked for. -/
theorem answer (hplan : reg.Planned) : ∀ (r : Request) (v : Value), reg.Ready T r →
    reg.answer limit r = .ok v → T r.id v := by
  -- By induction on what a request leads to. Readiness is carried along, since a value that
  -- stands ready passes through unions and nullables to the product that takes it.
  refine request_induction reg limit ?_
  intro r ih v hready hv
  cases hshape : reg.shape r.id with
  | primitive kind =>
    rw [answer_primitive hshape] at hv
    obtain ⟨hkind, hplain⟩ := of_translatePrimitive_eq_ok hv
    exact hT.plain hshape hkind hplain
  | nameSet =>
    rw [answer_nameSet hshape] at hv
    obtain ⟨set, rfl⟩ := of_translateNames_eq_ok hv
    exact hT.names hshape
  | array item =>
    obtain ⟨items, values, hsource, rfl, hvalues⟩ := of_answer_array_eq_ok hshape hv
    refine hT.list hshape fun value hvalue => ?_
    obtain ⟨x, hx, hanswer⟩ := exists_of_forall₂_of_mem_right hvalues hvalue
    exact ih _ (.item hshape hsource hx) value (ready_of_preset_eq_none rfl) hanswer
  | nullable inner =>
    rcases of_answer_nullable_eq_ok hshape hv with ⟨-, rfl⟩ | ⟨-, hanswer⟩
    · exact hT.null hshape
    · have hmem : inner ∈ (reg.shape r.id).samePath := by simp [hshape, Shape.samePath]
      exact hT.step hmem (ih _ (.samePath hmem) v (hready.as hmem) hanswer)
  | union alternatives =>
    obtain ⟨a, ha, hanswer⟩ := of_answer_union_eq_ok hshape hv
    have hmem : a ∈ (reg.shape r.id).samePath := by simpa [hshape, Shape.samePath] using ha
    exact hT.step hmem (ih _ (.samePath hmem) v (hready.as hmem) hanswer)
  | product p =>
    obtain ⟨record, slots, -, hdepth, hslots, rfl⟩ := of_answer_product_eq_ok hshape hv
    -- The fields that are not computed, before the plan is run.
    have hsupplied : p.Supplied (fun field v => T field.type v) slots := by
      refine forall₂_imp_of_mem_left ?_ hslots
      intro field slot hmem hslot
      rw [Supplies] at hslot
      split at hslot
      · next hcomp => rw [if_pos hcomp, hslot]
      · next hcomp =>
        rw [if_neg hcomp]
        obtain ⟨v, rfl, hanswer⟩ := hslot
        refine ⟨v, rfl, hT.answerField hshape hmem hready ?_ hanswer⟩
        intro source path v hv
        exact ih _ (.field hdepth) v (ready_of_preset_eq_none rfl) hv
    obtain ⟨hentries, hsat, -⟩ :=
      Product.complete_spec (hplan hshape) hsupplied (hT.rule hshape)
    exact hT.node hshape hentries hsat
  | inspect i =>
    obtain ⟨record, probed, arm, hrecord, hprobed, harm, hanswer⟩ :=
      of_answer_inspect_eq_ok hshape hv
    have hprobe : T i.probe probed :=
      ih _ (.probe hshape hrecord) probed (ready_of_preset_eq_none rfl) hprobed
    have hmem : arm.target ∈ (reg.shape r.id).samePath := by
      rw [hshape]
      exact List.mem_map_of_mem (List.mem_of_find?_eq_some harm)
    refine hT.step hmem (ih _ (.target hmem) v ?_ hanswer)
    -- What stands ready now is the probed value, which is related to the probed type.
    intro preset hpreset last p field hlast hproduct hfield hkey hinst
    cases hpreset
    exact hT.handed hshape (.step hmem hlast) hproduct hfield hkey hprobe hinst

/-- A translated source is related to the type it was translated as. -/
theorem translate (hplan : reg.Planned) {id : TypeId} {source : Json} {v : Value}
    (hv : reg.translate limit id source = .ok v) : T id v := by
  unfold Registry.translate at hv
  split at hv
  · exact hT.answer hplan ⟨id, some source, .root, none, 0⟩ v (ready_of_preset_eq_none rfl) hv
  · cases hv

end Typing

end Registry

theorem Builder.planned_of_freeze {b : Builder} {reg : Registry} (h : b.freeze = .ok reg) :
    reg.Planned :=
  plan_of_freeze h

end TypedTree
