/-
Walks over translated values by the fields below which nodes can be found.

A registry lists such fields for every product, from the bodies of their types alone. Main
statements:

* `Registry.mem_traversable_iff` — what is listed: fields that are neither computed nor attached
  comments, and whose type yields a product;
* `Registry.exists_builds_of_holds` — a node that an answer holds is built as a product that the
  type yields;
* `Registry.Visits` — a node is met on a walk by the listed fields;
* `Registry.walk_complete` — where a node holds another in a field that is neither computed nor
  attached comments, the field is listed, unless an inspect shape handed the value to a field
  that takes anything; so a walk meets all nodes but those below such fields;
* `Registry.walk_misses_handed` — a node handed to such a field is missed.

Design notes: to be an instance of a type and to be translated as one differ only where the type
takes anything. What is handed over has to be an instance, all else is translated.
-/
import TypedTree.Proofs.Schema.Inspection
import TypedTree.Proofs.Translation.Leaves
import TypedTree.Proofs.Translation.Membership
import TypedTree.Proofs.Translation.Origin

namespace TypedTree

/-- A field for attached comments, by its name. -/
def Field.IsComments (field : Field) : Prop := "Comments".toList <:+ field.name.toList

namespace Registry

variable {reg : Registry} {limit : Nat} {root s : Request} {id : TypeId} {p : Product}
  {n m : Node} {record : Json.Record} {field : Field}

/-! ### Listed fields -/

theorem yields_iff_leads {last : TypeId} :
    reg.Yields id last ↔ Graph.Leads (fun id => (reg.shape id).contents) id last := by
  constructor
  · intro h
    induction h with
    | refl => exact .refl
    | step mem _ ih => exact .head mem ih
  · intro h
    induction h using Relation.ReflTransGen.head_induction_on with
    | refl => exact .refl last
    | head mem _ ih => exact .step mem ih

/-- Whether a value of a type can hold a node is whether the type yields a product. -/
theorem canHoldNode_iff : canHoldNode (reg.defs.toList.map (·.shape)) id = true ↔
    ∃ last q, reg.Yields id last ∧ reg.shape last = .product q := by
  rw [canHoldNode, List.any_eq_true]
  refine exists_congr fun last => ?_
  rw [Inspect.mem_reach_shapeAt_iff rfl, shapeAt_defs]
  have hleads : (∃ start ∈ [id], Graph.Leads
      (fun id => (shapeAt (reg.defs.toList.map (·.shape)) id).contents) start last) ↔
        reg.Yields id last := by
    simp only [List.mem_singleton, exists_eq_left, shapeAt_defs, yields_iff_leads]
  rw [hleads]
  cases reg.shape last <;> simp [Shape.asProduct?]

/-- The fields that are listed for a product. -/
theorem mem_traversable_iff {b : Builder} (hb : b.freeze = .ok reg)
    (hshape : reg.shape id = .product p) {name : String} :
    name ∈ reg.traversable id ↔ ∃ field ∈ p.fields, field.name = name ∧
      field.isComputed = false ∧ ¬ field.IsComments ∧
      ∃ last q, reg.Yields field.type last ∧ reg.shape last = .product q := by
  rw [Builder.traversable_of_freeze hb, hshape, Shape.traversable, List.mem_map]
  refine exists_congr fun field => ?_
  rw [List.mem_filter, Bool.and_eq_true, Bool.and_eq_true, Bool.not_eq_true', Bool.not_eq_true',
    canHoldNode_iff, Field.IsComments, ← List.isSuffixOf_iff_suffix, Bool.not_eq_true]
  tauto

/-! ### Nodes that a value holds -/

/-- A node that an answer holds is built in the run, as a product that the type yields. -/
theorem exists_builds_of_holds (hplan : reg.Planned) : ∀ (r : Request) {v : Value},
    reg.answer limit r = .ok v → v.Holds m →
      ∃ s record p, reg.Reaches limit r s ∧ reg.Yields r.id s.id ∧
        reg.Builds limit s record p m := by
  refine request_induction reg limit ?_
  intro r ih v hv hm
  -- One step further the node is built for a type that this one yields.
  have hstep : ∀ {next : Request} {w : Value}, Calls reg limit r next → reg.Asks limit r next →
      next.id ∈ (reg.shape r.id).contents → reg.answer limit next = .ok w → w.Holds m →
      ∃ s record p, reg.Reaches limit r s ∧ reg.Yields r.id s.id ∧
        reg.Builds limit s record p m := by
    intro next w hcalls hasks hmem hw hm
    obtain ⟨s, record, p, hrun, hyields, hbuilds⟩ := ih next hcalls hw hm
    exact ⟨s, record, p, .head hasks hrun, .step hmem hyields, hbuilds⟩
  cases hshape : reg.shape r.id with
  | primitive kind =>
    rw [answer_primitive hshape] at hv
    have hplain := (of_translatePrimitive_eq_ok hv).2
    exact absurd (Node.OccursIn.of_holds hm (.here m)) hplain.not_occursIn
  | nameSet =>
    rw [answer_nameSet hshape] at hv
    obtain ⟨set, rfl⟩ := of_translateNames_eq_ok hv
    cases hm
  | array item =>
    obtain ⟨items, values, hsource, rfl, hvalues⟩ := of_answer_array_eq_ok hshape hv
    obtain ⟨value, hvalue, hm⟩ := Value.holds_list_iff.mp hm
    obtain ⟨x, hx, hanswer⟩ := exists_of_forall₂_of_mem_right hvalues hvalue
    exact hstep (.item hshape hsource hx) (.item hshape hsource hx)
      (by simp [hshape, Shape.contents, Request.item]) hanswer hm
  | product p =>
    obtain ⟨n, rfl⟩ := exists_node_of_product hshape hv
    obtain rfl := Value.holds_toValue_iff.mp hm
    obtain ⟨record, hbuilds⟩ := exists_builds_of_product hplan hshape hv
    exact ⟨r, record, p, .refl, .refl r.id, hbuilds⟩
  | nullable inner =>
    rcases of_answer_nullable_eq_ok hshape hv with ⟨-, rfl⟩ | ⟨hpresent, hanswer⟩
    · cases hm
    · have hpass : reg.Passes limit r (r.as inner) := .inner hshape hpresent
      exact hstep (Settles.calls (.inl hpass)) (.settles (.inl hpass))
        (Shape.mem_contents_of_mem_samePath hpass.mem_samePath) hanswer hm
  | union alternatives =>
    obtain ⟨next, hpass, hanswer⟩ := exists_passes_of_union hshape hv
    exact hstep (Settles.calls (.inl hpass)) (.settles (.inl hpass))
      (Shape.mem_contents_of_mem_samePath hpass.mem_samePath) hanswer hm
  | inspect i =>
    obtain ⟨record, probed, arm, hrecord, hprobed, harm, hanswer⟩ :=
      of_answer_inspect_eq_ok hshape hv
    have hhand : reg.Settles limit r (r.handing arm.target ⟨i.field, probed⟩) :=
      .inr ⟨i, probed, .target hshape hrecord hprobed harm⟩
    exact hstep hhand.calls (.settles hhand)
      (Shape.mem_contents_of_mem_samePath hhand.mem_samePath) hanswer hm

/-- An instance of a type holds nodes only if the type yields a product, or takes anything. -/
theorem yields_of_isInstance (id : TypeId) (v : Value) : reg.isInstance id v = true → v.Holds m →
    (∃ last q, reg.Yields id last ∧ reg.shape last = .product q) ∨
      ∃ last, reg.Yields id last ∧ reg.shape last = .primitive .any := by
  -- One step further the type that is found is one that this one yields.
  have hstep : ∀ {id next : TypeId}, next ∈ (reg.shape id).contents →
      ((∃ last q, reg.Yields next last ∧ reg.shape last = .product q) ∨
        ∃ last, reg.Yields next last ∧ reg.shape last = .primitive .any) →
      (∃ last q, reg.Yields id last ∧ reg.shape last = .product q) ∨
        ∃ last, reg.Yields id last ∧ reg.shape last = .primitive .any := by
    rintro id next hmem (⟨last, q, hlast, hq⟩ | ⟨last, hlast, hany⟩)
    · exact .inl ⟨last, q, .step hmem hlast, hq⟩
    · exact .inr ⟨last, .step hmem hlast, hany⟩
  induction id, v using isInstance.induct reg with
  | case1 id v kind hshape =>
    intro hv hm
    rw [isInstance_eq, hshape] at hv
    by_cases hkind : kind = .any
    · subst hkind
      exact .inr ⟨id, .refl id, hshape⟩
    · exact absurd hm (Primitive.plain_of_holds hkind hv).not_holds
  | case2 id item hshape items ih =>
    intro hv hm
    rw [isInstance_eq, hshape] at hv
    obtain ⟨w, hw, hm⟩ := Value.holds_list_iff.mp hm
    exact hstep (by simp [hshape, Shape.contents]) (ih w hw (List.all_eq_true.mp hv w hw) hm)
  | case3 id v item hshape hnot =>
    intro hv
    rw [isInstance_eq, hshape] at hv
    cases v with
    | list items => exact (hnot items rfl).elim
    | null | bool | number | string | any | names | node => cases hv
  | case4 id v inner hshape ih =>
    intro hv hm
    rw [isInstance_eq, hshape] at hv
    rcases Bool.or_eq_true_iff.mp hv with hnull | hinner
    · cases v <;> simp only [Value.isNull, Bool.false_eq_true] at hnull
      cases hm
    · exact hstep (by simp [hshape, Shape.contents]) (ih hinner hm)
  | case5 id v hshape =>
    intro hv hm
    rw [isInstance_eq, hshape] at hv
    cases v <;> simp only [Value.asNames?, Option.isSome, Bool.false_eq_true] at hv
    cases hm
  | case6 id v q hshape => exact fun _ _ => .inl ⟨id, q, .refl id, hshape⟩
  | case7 id v alternatives hshape ih =>
    intro hv hm
    rw [isInstance_eq, hshape] at hv
    obtain ⟨a, ha, hv⟩ := List.any_eq_true.mp hv
    exact hstep (by simpa [hshape, Shape.contents] using ha) (ih a ha hv hm)
  | case8 id v i hshape ih =>
    intro hv hm
    rw [isInstance_eq, hshape] at hv
    obtain ⟨arm, harm, hv⟩ := List.any_eq_true.mp hv
    refine hstep ?_ (ih arm harm hv hm)
    rw [hshape]
    exact List.mem_map_of_mem harm

/-! ### Fields of built nodes -/

/-- An inspect shape handed a value down to a field, which takes anything. -/
def TakesAnything (reg : Registry) (limit : Nat) (root s : Request) (field : Field) (v : Value) :
    Prop :=
  (∃ i mid, reg.Reaches limit root mid ∧ reg.HandsDown limit i v mid s ∧
    field.source = .key i.field) ∧
  ∃ last, reg.Yields field.type last ∧ reg.shape last = .primitive .any

section

variable (hplan : reg.Planned) (hdefaults : reg.SparesNodes) (hroot : root.preset = none)
  (hrun : reg.Reaches limit root s) (hbuilds : reg.Builds limit s record p n)
  (hmem : field ∈ p.fields) (hcomp : field.isComputed = false)
include hplan hdefaults hroot hrun hbuilds hmem hcomp

/-- A node in a field that is not computed was built in the run, as a product that the type of
the field yields unless the value was handed to a field that takes anything. -/
theorem builds_of_field {w : Value} (hw : n.get? field.name = some w) (hm : w.Holds m) :
    reg.BuiltFrom limit root m ∧
      ((∃ last q, reg.Yields field.type last ∧ reg.shape last = .product q) ∨
        reg.TakesAnything limit root s field w) := by
  obtain ⟨v, hv, hanswer⟩ := hbuilds.field hmem hcomp
  cases hw.symm.trans hv
  rw [answerField] at hanswer
  cases hreading : reg.readField field record s.path s.preset with
  | settled result =>
    rw [hreading] at hanswer
    cases hanswer
    rcases of_readField_eq_settled hreading with ⟨hd, -⟩ | ⟨ready, hready, hkey, rfl⟩
    · exact absurd (.of_holds hm (.here m)) (hdefaults hbuilds.shape hmem hd m)
    -- What stands ready was probed, and so it was translated elsewhere in the run.
    · obtain ⟨i, mid, hmid, hdown, hfield⟩ := exists_handsDown_of_preset hroot hrun hready
      constructor
      · obtain ⟨next, hhand, -⟩ := hdown
        cases hhand with
        | target shape source probe choice =>
          obtain ⟨t, found, q, hbelow, -, hm⟩ := exists_builds_of_holds hplan _ probe hm
          exact ⟨t, found, q, (hmid.tail (.probe shape source)).trans hbelow, hm⟩
      · rw [readField, hkey, hready] at hreading
        dsimp only at hreading
        rw [if_pos rfl] at hreading
        have hinst := (takePreset_eq_ok_iff.mp (Reading.settled.inj hreading)).1
        exact (yields_of_isInstance field.type ready.value hinst hm).imp_right fun hany =>
          ⟨⟨i, mid, hmid, hdown, hfield ▸ hkey⟩, hany⟩
  | translate source path =>
    rw [hreading] at hanswer
    have hasks : reg.Asks limit s (s.part field.type source path) :=
      .field hbuilds.shape (matchRecord_eq_ok_iff.mpr ⟨hbuilds.source, hbuilds.admits⟩)
        hbuilds.within hmem hcomp hreading
    obtain ⟨t, found, q, hbelow, hyields, hm⟩ := exists_builds_of_holds hplan _ hanswer hm
    exact ⟨⟨t, found, q, (hrun.tail hasks).trans hbelow, hm⟩, .inl ⟨t.id, q, hyields, hm.shape⟩⟩

/-- A field that holds nodes is listed. -/
theorem mem_traversable_of_holds {b : Builder} (hb : b.freeze = .ok reg)
    (hcomments : ¬ field.IsComments) {w : Value} (hw : n.get? field.name = some w)
    (hm : w.Holds m) :
    field.name ∈ reg.traversable n.id ∨ reg.TakesAnything limit root s field w := by
  refine (builds_of_field hplan hdefaults hroot hrun hbuilds hmem hcomp hw hm).2.imp_left ?_
  rintro ⟨last, q, hyields, hq⟩
  rw [hbuilds.id, mem_traversable_iff hb hbuilds.shape]
  exact ⟨field, hmem, rfl, hcomp, hcomments, last, q, hyields, hq⟩

end

/-! ### Walks -/

/-- A node is met on a walk that goes from a node to those in its listed fields. -/
inductive Visits (reg : Registry) (v : Value) : Node → Prop
  | top {n : Node} (h : v.Holds n) : Visits reg v n
  | down {m n : Node} {name : String} {w : Value} (visited : Visits reg v m)
      (listed : name ∈ reg.traversable m.id) (value : m.get? name = some w) (h : w.Holds n) :
      Visits reg v n

/-- A node that is met on a walk was built in the run. -/
theorem Visits.builtFrom {b : Builder} (hb : b.freeze = .ok reg) (hdefaults : reg.SparesNodes)
    (hroot : root.preset = none) {v : Value} (hv : reg.answer limit root = .ok v)
    (h : reg.Visits v n) : reg.BuiltFrom limit root n := by
  have hplan : reg.Planned := Builder.planned_of_freeze hb
  induction h with
  | top hn =>
    obtain ⟨s, record, p, hrun, -, hbuilds⟩ := exists_builds_of_holds hplan root hv hn
    exact ⟨s, record, p, hrun, hbuilds⟩
  | down _ listed value hn ih =>
    obtain ⟨s, record, p, hrun, hbuilds⟩ := ih
    rw [hbuilds.id, mem_traversable_iff hb hbuilds.shape] at listed
    obtain ⟨field, hmem, rfl, hcomp, -, -⟩ := listed
    exact (builds_of_field hplan hdefaults hroot hrun hbuilds hmem hcomp value hn).1

/-- A field of a node that is met on a walk, below which the walk does not go. -/
def Hides (reg : Registry) (limit : Nat) (root : Request) (v : Value) (n : Node) : Prop :=
  ∃ s record p m, reg.Reaches limit root s ∧ reg.Builds limit s record p m ∧ reg.Visits v m ∧
    ∃ field ∈ p.fields, ∃ w, m.get? field.name = some w ∧ n.OccursIn w ∧
      (field.isComputed = true ∨ field.IsComments ∨ reg.TakesAnything limit root s field w)

/-- A walk meets every node, but those below fields that are not listed. -/
theorem visits_or_hides {b : Builder} (hb : b.freeze = .ok reg) (hdefaults : reg.SparesNodes)
    (hroot : root.preset = none) {v : Value} (hv : reg.answer limit root = .ok v)
    (hn : n.OccursIn v) : reg.Visits v n ∨ reg.Hides limit root v n := by
  have hplan : reg.Planned := Builder.planned_of_freeze hb
  -- Generally for a part of the value, once the nodes that it holds are met.
  suffices hpart : ∀ w : Value, n.OccursIn w → (∀ m, w.Holds m → reg.Visits v m) →
      reg.Visits v n ∨ reg.Hides limit root v n from hpart v hn fun m hm => .top hm
  intro w hn
  induction hn with
  | here => exact fun hall => .inl (hall n (.here n))
  | item mem _ ih => exact fun hall => ih fun m hm => hall m (.item mem hm)
  | @field m name w mem hn ih =>
    intro hall
    have hvisits : reg.Visits v m := hall m (.here m)
    obtain ⟨s, record, p, hrun, hbuilds⟩ := hvisits.builtFrom hb hdefaults hroot hv
    obtain ⟨field, hmem, rfl, hw⟩ := hbuilds.get?_of_mem hplan mem
    by_cases hhidden : field.isComputed = true ∨ field.IsComments ∨
        reg.TakesAnything limit root s field w
    · exact .inr ⟨s, record, p, m, hrun, hbuilds, hvisits, field, hmem, w, hw, hn, hhidden⟩
    · obtain ⟨hcomp, hcomments, hnot⟩ : ¬ field.isComputed = true ∧ ¬ field.IsComments ∧
          ¬ reg.TakesAnything limit root s field w := by tauto
      refine ih fun k hk => .down hvisits ?_ hw hk
      exact (mem_traversable_of_holds hplan hdefaults hroot hrun hbuilds hmem (by simpa using hcomp)
        hb hcomments hw hk).resolve_right hnot

/-- In every node that a translation builds, a field that holds nodes is listed, but for computed
fields, attached comments and fields that were handed a value and take anything. A walk by the
listed fields meets every node that is not below such a field. -/
theorem walk_complete {b : Builder} (hb : b.freeze = .ok reg) (hdefaults : reg.SparesNodes)
    {source : Json} {v : Value} (hv : reg.translate limit id source = .ok v)
    (hn : n.OccursIn v) :
    (¬ reg.BroughtIn limit (.whole id source) n →
      ∃ s record p, reg.Reaches limit (.whole id source) s ∧ reg.Builds limit s record p n ∧
        ∀ field ∈ p.fields, field.isComputed = false → ¬ field.IsComments →
          ∀ w m, n.get? field.name = some w → w.Holds m →
            field.name ∈ reg.traversable n.id ∨
              reg.TakesAnything limit (.whole id source) s field w) ∧
    (reg.Visits v n ∨ reg.Hides limit (.whole id source) v n) := by
  have hplan : reg.Planned := Builder.planned_of_freeze hb
  have hanswer := answer_of_translate_eq_ok hv
  refine ⟨fun hown => ?_, visits_or_hides hb hdefaults rfl hanswer hn⟩
  obtain ⟨s, record, p, hrun, hbuilds⟩ :=
    (builtFrom_or_broughtIn hplan rfl hanswer hn).resolve_right hown
  exact ⟨s, record, p, hrun, hbuilds, fun field hmem hcomp hcomments w m hw hm =>
    mem_traversable_of_holds hplan hdefaults rfl hrun hbuilds hmem hcomp hb hcomments hw hm⟩

/-! ### A field that takes anything -/

/-- A product with one field. -/
def holderOf (type : TypeId) : Product where
  source := { tag := "T" }
  fields := [.required "value" type]

/-- Products that take a leaf, in a field of its type and in one that takes anything, and an
inspect shape that hands it to the latter. -/
def leafHolders : Builder := { declarations := [
  { name := "any", body := some (.primitive .any) },
  { name := "Leaf", body := some (.product { source := { tag := "Leaf" }, fields := [] }) },
  { name := "Target", body := some (.product (holderOf ⟨0⟩)) },
  { name := "Pick", body := some (.inspect {
      field := "value", probe := ⟨1⟩, arms := [⟨⟨1⟩, ⟨2⟩⟩] }) },
  { name := "Owner", body := some (.product (holderOf ⟨1⟩)) }] }

/-- A record with a leaf. -/
def leafRecord : Json.Record := [("type", .str "T"), ("value", .obj [("type", .str "Leaf")])]

theorem required_of_leafHolders {id : TypeId} {p : Product}
    (h : (leafHolders.body? id).getD (.union []) = .product p) :
    ∀ field ∈ p.fields, field.population = .required := by
  obtain ⟨i⟩ := id
  match i with
  | 0 | 3 => cases h
  | 1 =>
    cases h
    exact fun _ hmem => nomatch hmem
  | 2 | 4 =>
    cases h
    simp [holderOf, Field.required]
  | _ + 5 => cases h

/-- A product with one field is translated if the field has a value. -/
theorem exists_answer_holderOf (hplan : reg.Planned) {type : TypeId} {preset : Option Preset}
    {w : Value} (hshape : reg.shape id = .product (holderOf type))
    (hw : reg.answerField 2 ⟨id, some (.obj leafRecord), .root, preset, 0⟩ leafRecord
      (.required "value" type) = .ok w) :
    ∃ n : Node, reg.answer 2 ⟨id, some (.obj leafRecord), .root, preset, 0⟩ = .ok n.toValue ∧
      n.id = id ∧ n.get? "value" = some w := by
  obtain ⟨v, hv⟩ : ∃ v, reg.answer 2 ⟨id, some (.obj leafRecord), .root, preset, 0⟩ = .ok v := by
    refine (exists_answer_product_iff hshape rfl).mpr
      ⟨⟨rfl, fun _ hentry => nomatch hentry⟩, Nat.two_pos, fun field hmem _ => ?_⟩
    rw [List.mem_singleton.mp hmem]
    exact ⟨w, hw⟩
  obtain ⟨n, rfl⟩ := exists_node_of_product hshape hv
  have hbuilds := builds_of_product hplan hshape rfl hv
  obtain ⟨w', hw', hanswer⟩ := hbuilds.field List.mem_cons_self rfl
  cases hw.symm.trans hanswer
  exact ⟨n, hv, hbuilds.id, hw'⟩

section

variable (hshape : ∀ id, reg.shape id = (leafHolders.body? id).getD (.union []))
include hshape

theorem sparesNodes_leafHolders : reg.SparesNodes := by
  intro id p field v hp hmem hd
  rw [required_of_leafHolders (hshape id ▸ hp) field hmem] at hd
  cases hd

theorem not_broughtIn_leafHolders (hplan : reg.Planned) : ¬ reg.BroughtIn limit root n := by
  refine not_broughtIn hplan (sparesNodes_leafHolders hshape) ?_
  intro id p field rule hp hmem hrule
  rw [Field.rule?, required_of_leafHolders (hshape id ▸ hp) field hmem] at hrule
  cases hrule

/-- The leaf is translated wherever it stands. -/
theorem exists_answer_leaf {path : Path} {depth : Nat} (hdepth : depth < limit) :
    ∃ m : Node, reg.answer limit ⟨⟨1⟩, some (.obj [("type", .str "Leaf")]), path, none, depth⟩ =
      .ok m.toValue := by
  obtain ⟨v, hv⟩ : ∃ v, reg.answer limit
      ⟨⟨1⟩, some (.obj [("type", .str "Leaf")]), path, none, depth⟩ = .ok v :=
    (exists_answer_product_iff (hshape ⟨1⟩) rfl).mpr
      ⟨⟨rfl, fun _ hentry => nomatch hentry⟩, hdepth, fun _ hmem => nomatch hmem⟩
  obtain ⟨m, rfl⟩ := exists_node_of_product (hshape ⟨1⟩) hv
  exact ⟨m, hv⟩

/-- The inspect shape hands the leaf to the field that takes anything. -/
theorem exists_answer_pick (hplan : reg.Planned) :
    ∃ n m : Node, reg.answer 2 (.whole ⟨3⟩ (.obj leafRecord)) = .ok n.toValue ∧ n.id = ⟨2⟩ ∧
      n.get? "value" = some m.toValue := by
  let pick : Inspect := { field := "value", probe := ⟨1⟩, arms := [⟨⟨1⟩, ⟨2⟩⟩] }
  obtain ⟨m, hm⟩ : ∃ m : Node, reg.answer 2 ((Request.whole ⟨3⟩ (.obj leafRecord)).probe pick
      leafRecord) = .ok m.toValue := exists_answer_leaf hshape (by decide)
  have hleaf : reg.isInstance ⟨1⟩ m.toValue = true := isInstance_of_answer _ hm
  have hbuilds : reg.buildsFrom "T" ⟨2⟩ = true := by
    rw [buildsFrom_eq, hshape]
    rfl
  have hhand : reg.Hands 2 pick m.toValue (.whole ⟨3⟩ (.obj leafRecord))
      ((Request.whole ⟨3⟩ (.obj leafRecord)).handing ⟨2⟩ ⟨"value", m.toValue⟩) :=
    @Hands.target _ _ _ _ _ leafRecord ⟨⟨1⟩, ⟨2⟩⟩ (hshape ⟨3⟩)
      (inspectable?_eq_some rfl rfl List.mem_cons_self hbuilds) hm (by simp [pick, hleaf])
  have hany : reg.isInstance ⟨0⟩ m.toValue = true := by
    rw [isInstance_eq, hshape]
    rfl
  have htaken : reg.answerField 2 ((Request.whole ⟨3⟩ (.obj leafRecord)).handing ⟨2⟩
      ⟨"value", m.toValue⟩) leafRecord (.required "value" ⟨0⟩) = .ok m.toValue := by
    rw [answerField_of_preset rfl rfl]
    exact takePreset_eq_ok_iff.mpr ⟨hany, rfl⟩
  obtain ⟨n, hn, hid, hvalue⟩ := exists_answer_holderOf hplan (hshape ⟨2⟩) htaken
  exact ⟨n, m, hhand.answer_eq.trans hn, hid, hvalue⟩

end

theorem Yields.eq_of_contents_eq_nil {last : TypeId} (h : reg.Yields id last)
    (hnil : (reg.shape id).contents = []) : last = id := by
  cases h with
  | refl => rfl
  | step mem _ =>
    rw [hnil] at mem
    cases mem

/-- The field of the leaf's own type is listed. -/
theorem walk_complete_leaf : ∃ (reg : Registry) (n m : Node), leafHolders.freeze = .ok reg ∧
    reg.SparesNodes ∧ reg.translate 2 ⟨4⟩ (.obj leafRecord) = .ok n.toValue ∧
    ¬ reg.BroughtIn 2 (.whole ⟨4⟩ (.obj leafRecord)) n ∧
    n.get? "value" = some m.toValue ∧ "value" ∈ reg.traversable n.id := by
  obtain ⟨reg, hreg, hshape⟩ :=
    Builder.exists_freeze_of_check (b := leafHolders) (by decide +kernel)
  have hplan : reg.Planned := Builder.planned_of_freeze hreg
  have hspares : reg.SparesNodes := sparesNodes_leafHolders hshape
  obtain ⟨m, hm⟩ : ∃ m : Node, reg.answerField 2 (.whole ⟨4⟩ (.obj leafRecord)) leafRecord
      (.required "value" ⟨1⟩) = .ok m.toValue := by
    rw [answerField_of_present rfl rfl rfl]
    exact exists_answer_leaf hshape Nat.one_lt_two
  obtain ⟨n, hn, hid, hvalue⟩ := exists_answer_holderOf hplan (hshape ⟨4⟩) hm
  have hcontains : reg.contains ⟨4⟩ = true := by
    rw [contains, Builder.size_of_freeze hreg]
    rfl
  have htranslate : reg.translate 2 ⟨4⟩ (.obj leafRecord) = .ok n.toValue := by
    rw [translate_eq, if_pos hcontains]
    exact hn
  have hown : ¬ reg.BroughtIn 2 (.whole ⟨4⟩ (.obj leafRecord)) n :=
    not_broughtIn_leafHolders hshape hplan
  refine ⟨reg, n, m, hreg, hspares, htranslate, hown, hvalue, ?_⟩
  obtain ⟨s, record, p, -, hbuilds, hall⟩ :=
    (walk_complete hreg hspares htranslate (.here n)).1 hown
  have hp := hbuilds.shape
  rw [← hbuilds.id, hid, hshape] at hp
  cases hp
  have hcomments : ¬ (Field.required "value" ⟨1⟩).IsComments := by
    rw [Field.IsComments]
    decide
  refine (hall _ List.mem_cons_self rfl hcomments _ m hvalue (.here m)).resolve_right ?_
  rintro ⟨-, last, hlast, hany⟩
  rw [hlast.eq_of_contents_eq_nil (by rw [Field.required, hshape]; rfl)] at hany
  rw [hshape] at hany
  cases hany

/-- A node that is handed to a field that takes anything is in no listed field. -/
theorem walk_misses_handed :
    ¬ ∀ (b : Builder) (reg : Registry) (limit : Nat) (id : TypeId) (source : Json) (v : Value)
      (n m : Node) (p : Product) (field : Field) (w : Value), b.freeze = .ok reg →
      reg.SparesNodes → reg.translate limit id source = .ok v → n.OccursIn v →
      reg.shape n.id = .product p → field ∈ p.fields → field.isComputed = false →
      ¬ field.IsComments → n.get? field.name = some w → w.Holds m →
      field.name ∈ reg.traversable n.id := by
  intro h
  obtain ⟨reg, hreg, hshape⟩ :=
    Builder.exists_freeze_of_check (b := leafHolders) (by decide +kernel)
  obtain ⟨n, m, hn, hid, hvalue⟩ := exists_answer_pick hshape (Builder.planned_of_freeze hreg)
  have hcontains : reg.contains ⟨3⟩ = true := by
    rw [contains, Builder.size_of_freeze hreg]
    rfl
  have htranslate : reg.translate 2 ⟨3⟩ (.obj leafRecord) = .ok n.toValue := by
    rw [translate_eq, if_pos hcontains, hn]
  have hcomments : ¬ (Field.required "value" ⟨0⟩).IsComments := by
    rw [Field.IsComments]
    decide
  have hproduct : reg.shape n.id = .product (holderOf ⟨0⟩) := by
    rw [hid, hshape]
    rfl
  have hlisted := h _ reg 2 ⟨3⟩ _ _ n m _ _ _ hreg (sparesNodes_leafHolders hshape) htranslate
    (.here n) hproduct List.mem_cons_self rfl hcomments hvalue (.here m)
  rw [hid, mem_traversable_iff hreg (hshape ⟨2⟩)] at hlisted
  obtain ⟨field, hmem, -, -, -, last, q, hlast, hq⟩ := hlisted
  rw [List.mem_singleton.mp hmem] at hlast
  rw [hlast.eq_of_contents_eq_nil (by rw [Field.required, hshape]; rfl), Field.required,
    hshape] at hq
  cases hq

end Registry

end TypedTree
