/-
Membership of what is translated.

Defaults come into a node unchecked, everything else is an instance of the type it was
translated as. Main statements:

* `Registry.isInstance_of_answer` — every answer is an instance of the type that was asked for;
* `Registry.Holds` — what a field may hold in a node that is built from a record: an instance of
  its type, or its default where the record has nothing for it;
* `Registry.Builds.holds` — every field of a node that is built holds one of the two, if the
  product has no computed fields;
* `Registry.exists_builds_of_translate` — if no default brings nodes of its own, every node of a
  translated source is built in its run.

Design notes: `Registry.Conforms` asks for instances everywhere, and `Registry.WellPopulated` is
what a registry has to promise for that. Here nothing is asked of the defaults.
-/
import TypedTree.Proofs.Translation.Conformance
import TypedTree.Proofs.Translation.Run

namespace TypedTree

namespace Registry

variable {reg : Registry} {limit : Nat} {r s : Request} {p : Product} {n : Node}
  {record : Json.Record} {field : Field}

/-! ### Answers -/

/-- Every answer is an instance of the type that was asked for. -/
theorem isInstance_of_answer : ∀ (r : Request) {v : Value}, reg.answer limit r = .ok v →
    reg.isInstance r.id v = true := by
  -- By induction on what a request leads to: a nullable, a union and an inspect shape take over the
  -- answer of a type all of whose instances are theirs.
  refine request_induction reg limit ?_
  intro r ih v hv
  cases hshape : reg.shape r.id with
  | primitive kind =>
    rw [answer_primitive hshape] at hv
    rw [isInstance_eq, hshape]
    exact (of_translatePrimitive_eq_ok hv).1
  | nameSet =>
    rw [answer_nameSet hshape] at hv
    obtain ⟨set, rfl⟩ := of_translateNames_eq_ok hv
    rw [isInstance_eq, hshape]
    rfl
  | array item =>
    obtain ⟨items, values, hsource, rfl, hvalues⟩ := of_answer_array_eq_ok hshape hv
    rw [isInstance_eq, hshape]
    refine List.all_eq_true.mpr fun value hvalue => ?_
    obtain ⟨x, hx, hanswer⟩ := exists_of_forall₂_of_mem_right hvalues hvalue
    exact ih _ (.item hshape hsource hx) hanswer
  | product p =>
    obtain ⟨record, slots, -, -, -, rfl⟩ := of_answer_product_eq_ok hshape hv
    rw [isInstance_eq, hshape]
    simp [buildNode, Value.asNode?]
  | nullable inner =>
    rcases of_answer_nullable_eq_ok hshape hv with ⟨-, rfl⟩ | ⟨-, hanswer⟩
    · rw [isInstance_eq, hshape]
      rfl
    · have hmem : inner ∈ (reg.shape r.id).samePath := by simp [hshape, Shape.samePath]
      exact isInstance_of_mem_samePath hmem (ih _ (.samePath hmem) hanswer)
  | union alternatives =>
    obtain ⟨a, ha, hanswer⟩ := of_answer_union_eq_ok hshape hv
    have hmem : a ∈ (reg.shape r.id).samePath := by simpa [hshape, Shape.samePath] using ha
    exact isInstance_of_mem_samePath hmem (ih _ (.samePath hmem) hanswer)
  | inspect i =>
    obtain ⟨record, probed, arm, -, -, harm, hanswer⟩ := of_answer_inspect_eq_ok hshape hv
    have hmem : arm.target ∈ (reg.shape r.id).samePath := by
      rw [hshape]
      exact List.mem_map_of_mem (List.mem_of_find?_eq_some harm)
    exact isInstance_of_mem_samePath hmem (ih _ (.target hmem) hanswer)

/-! ### Fields -/

/-- What a field may hold in a node that is built from a record: an instance of its type, or its
default where the record has nothing for it. -/
inductive Holds (reg : Registry) (record : Json.Record) (field : Field) (v : Value) : Prop
  | member (h : reg.isInstance field.type v = true)
  | default (population : field.population = .default v)
      (missing : (field.sourceIn record).all Json.isNull = true)

/-- A field holds what is read for it. -/
theorem holds_of_answerField {v : Value} (h : reg.answerField limit r record field = .ok v) :
    reg.Holds record field v := by
  rw [answerField] at h
  rcases readField_cases reg field record r.path r.preset with
    ⟨ready, hready, hkey, heq⟩ | ⟨d, hd, hmissing, heq⟩ | heq
  · rw [heq] at h
    obtain ⟨hinst, rfl⟩ := takePreset_eq_ok_iff.mp h
    exact .member hinst
  · rw [heq] at h
    cases h
    exact .default hd hmissing
  · rw [heq] at h
    exact .member (isInstance_of_answer (r.part field.type _ _) h)

/-- In a node that is built as a product without computed fields, every field holds an instance
of its type or its default. -/
theorem Builds.holds (hplan : reg.Planned) (h : reg.Builds limit s record p n)
    (hrules : ∀ field ∈ p.fields, field.rule? = none) :
    n.typeName = reg.name n.id ∧
      List.Forall₂ (fun field entry => entry.1 = field.name ∧ reg.Holds record field entry.2)
        p.fields n.fields := by
  refine ⟨h.typeName.trans (by rw [h.id]), (h.answers hplan hrules).imp ?_⟩
  exact fun _ _ hfield => ⟨hfield.1, holds_of_answerField hfield.2⟩

/-! ### Nodes of a translated source -/

/-- If no default and no computed field brings nodes of its own, every node of a translated
source is built in its run. -/
theorem exists_builds_of_translate (hplan : reg.Planned)
    (hdefault : ∀ {id p field v}, reg.shape id = .product p → field ∈ p.fields →
      field.population = .default v → ∀ n : Node, ¬ n.OccursIn v)
    (hrules : ∀ {id p field}, reg.shape id = .product p → field ∈ p.fields → field.rule? = none)
    {id : TypeId} {source : Json} {v : Value} (hv : reg.translate limit id source = .ok v)
    (hn : n.OccursIn v) : reg.BuiltFrom limit (.whole id source) n := by
  have hpopulated : reg.Populated fun _ v => reg.AllBuiltFrom limit (.whole id source) v := by
    refine ⟨fun hshape hmem hd n hn => absurd hn (hdefault hshape hmem hd n), ?_⟩
    intro id p hshape field hmem rule hrule
    rw [hrules hshape hmem] at hrule
    cases hrule
  exact exists_builds_of_occursIn hplan hpopulated (.whole id source) v .refl nofun
    (answer_of_translate_eq_ok hv) n hn

end Registry

end TypedTree
