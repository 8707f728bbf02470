/-
What the schema of the grammar translates, written back and translated again.

Main statements:

* `Catalogue.synthesized_mirrors` — the types of the schema mirror what they read;
* `Catalogue.written_rereads` — what it translates is translated again from what it is written as,
  and comes out the same if and only if no list in it ends in a rest element.

Design notes: two rest elements at the end of a source array are one after the first translation,
and none after the second.
-/
import TypedTree.Proofs.Catalogue.Elements
import TypedTree.Proofs.Translation.Rereading

namespace TypedTree

namespace Catalogue

/-- The types of the schema mirror what they read. -/
theorem synthesized_mirrors : ∃ reg, synthesized = .ok reg ∧ reg.Mirrors := by
  obtain ⟨reg, hreg, hcheck⟩ : ∃ reg, synthesized = .ok reg ∧ reg.mirrorsSources = true :=
    exists_of_check (by decide +kernel)
  obtain ⟨b, hb⟩ := @exists_freeze_of_freezeBuilt (Grammar.estree.synthesize []) reg hreg
  exact ⟨reg, hreg, Registry.mirrors_of_mirrorsSources (Builder.planned_of_freeze hb) hcheck⟩

/-- What is translated and written back is translated again, as the same type and within the same
limit. It comes out as it was written but for the rest elements at the end of lists, and so the
same if and only if there are none. -/
theorem written_rereads {reg : Registry} (hreg : synthesized = .ok reg) {limit : Nat} {id : TypeId}
    {source : Json} {v : Value} (hv : reg.translate limit id source = .ok v) :
    ∃ v', reg.translate limit id (v.toJson true) = .ok v' ∧
      v'.toJson true = v.withoutRest.toJson true ∧
      (v'.toJson true = v.toJson true ↔ ¬ v.HasRest) := by
  obtain ⟨reg', hreg', hmirrors⟩ := synthesized_mirrors
  cases hreg.symm.trans hreg'
  exact hmirrors.translate_toJson hv

/-- The function with a rest parameter is translated without it, and again. -/
theorem written_rereads_function : ∃ reg, synthesized = .ok reg ∧ ∃ (id : TypeId) (v v' : Value),
    reg.translate 256 id (.obj functionSource) = .ok v ∧
    reg.translate 256 id (v.toJson true) = .ok v' ∧
    v'.toJson true = v.withoutRest.toJson true := by
  obtain ⟨reg, hreg, id, p, n, values, -, -, hn, -⟩ := exists_functionSource
  obtain ⟨v', hv', hwritten, -⟩ := written_rereads hreg hn
  exact ⟨reg, hreg, id, n.toValue, v', hn, hv', hwritten⟩

/-! ### Two rest parameters -/

/-- A rest element in a source. -/
def restSource (name : String) : Json :=
  .obj [("type", .str "RestElement"), ("argument", identifierSource name)]

/-- A function with two rest parameters and an empty body. -/
def restsSource : Json := .obj [
  ("type", .str "FunctionExpression"),
  ("params", .arr [identifierSource "a", restSource "r", restSource "s"]),
  ("body", .obj [("type", .str "BlockStatement"), ("body", .arr [])])]

/-- Whether a value is a node with a list under a field that ends in a rest element. -/
def endsInRest (field : String) (v : Value) : Bool :=
  match v.asNode? with
  | some n =>
    match n.get? field with
    | some (.list values) => values.getLast?.any fun last => (last.toJson true).isRest
    | _ => false
  | none => false

theorem hasRest_of_endsInRest {field : String} {v : Value} (h : endsInRest field v = true) :
    v.HasRest := by
  unfold endsInRest at h
  split at h
  · next n hn =>
    split at h
    · next values hvalues =>
      obtain ⟨last, hlast, hrest⟩ := (Option.any_eq_true _ _).mp h
      rw [Value.eq_of_asNode?_eq_some hn]
      exact .field (mem_of_lookup_eq_some hvalues) (.here hlast hrest)
    · cases h
  · cases h

/-- The function keeps one of its rest parameters when it is translated, and loses it when the
result is translated again. -/
theorem rest_lost_on_rereading : ∃ reg, synthesized = .ok reg ∧ ∃ v v',
    reg.translate 256 ⟨29⟩ restsSource = .ok v ∧
    reg.translate 256 ⟨29⟩ (v.toJson true) = .ok v' ∧ v'.toJson true ≠ v.toJson true := by
  obtain ⟨reg, hreg, hcheck⟩ : ∃ reg, synthesized = .ok reg ∧
      reg.translatesWithin 256 9 ⟨29⟩ restsSource (endsInRest "params") = true :=
    exists_of_check (by decide +kernel)
  obtain ⟨v, hv, hends⟩ := Registry.exists_of_translatesWithin hcheck
  obtain ⟨reg', hreg', hmirrors⟩ := synthesized_mirrors
  cases hreg.symm.trans hreg'
  obtain ⟨v', hv', -, hsame⟩ := hmirrors.translate_toJson hv
  exact ⟨reg, hreg, v, v', hv, hv', fun heq => hsame.mp heq (hasRest_of_endsInRest hends)⟩

end Catalogue

end TypedTree
