/-
Where the nodes of a translated value come from.

A translation builds nodes from records. Other nodes come to it ready-made, in a default or
from a rule. Main statements:

* `Registry.BroughtIn` — a node came into a run in a default that was taken, or a rule made it;
* `Registry.builtFrom_or_broughtIn` — every node of an answer was built in the run, or was
  brought in;
* `Registry.not_broughtIn` — nothing is brought in where no default holds a node and no rule
  makes one.

Design notes: a rule may pass on nodes that it was given. Such a node was built for a field that
is not computed, so it does not count as made by the rule.
-/
import TypedTree.Proofs.Translation.Run

namespace TypedTree

/-- A rule makes no nodes of its own. -/
def Computed.PassesNodes (rule : Computed) : Prop :=
  ∀ args (n : Node), n.OccursIn (rule.evaluate args) → ∃ arg ∈ args, n.OccursIn arg

theorem Computed.passesNodes_names (expr : SetExpr) : (Computed.names expr).PassesNodes :=
  fun _ _ hn => absurd hn Value.not_occursIn_names

theorem Computed.passesNodes_list (fields : List String) :
    (Computed.custom fields Value.list).PassesNodes :=
  fun _ _ hn => Node.occursIn_list_iff.mp hn

/-- A node of a product carries another in a field that is not computed. -/
def Product.Carries (p : Product) (m n : Node) : Prop :=
  ∃ field ∈ p.fields, field.isComputed = false ∧ ∃ v, m.get? field.name = some v ∧ n.OccursIn v

namespace Registry

variable {reg : Registry} {limit : Nat} {root s : Request} {p : Product} {n m : Node}
  {record : Json.Record}

/-! ### Entries of a node that is built -/

/-- The values of a node that is built stand under the names of its fields. -/
theorem Builds.names (hplan : reg.Planned) (h : reg.Builds limit s record p n) :
    n.fields.map (·.1) = p.fieldNames := by
  obtain ⟨slots, hslots, hsupplies⟩ := h.exists_slots
  rw [hslots]
  exact Product.names_complete (hplan h.shape) (Supplies.supplied hsupplies)

/-- The names are distinct, so each value is found under the name of its field. -/
theorem Builds.get?_of_mem (hplan : reg.Planned) (h : reg.Builds limit s record p n)
    {name : String} {v : Value} (hmem : (name, v) ∈ n.fields) :
    ∃ field ∈ p.fields, field.name = name ∧ n.get? field.name = some v := by
  have hname : name ∈ p.fieldNames := by
    rw [← h.names hplan]
    exact List.mem_map.mpr ⟨_, hmem, rfl⟩
  obtain ⟨field, hfield, rfl⟩ := List.mem_map.mp hname
  refine ⟨field, hfield, rfl, lookup_eq_some_of_mem ?_ hmem⟩
  rw [h.names hplan]
  exact (Product.of_plan_eq_ok (hplan h.shape)).1

/-! ### Nodes that are brought in -/

/-- A node came into a run in a default that was taken, or a rule made it. -/
inductive BroughtIn (reg : Registry) (limit : Nat) (root : Request) (n : Node) : Prop
  | default {s : Request} {record : Json.Record} {p : Product} {m : Node} {field : Field}
      {v : Value} (run : reg.Reaches limit root s) (builds : reg.Builds limit s record p m)
      (mem : field ∈ p.fields) (population : field.population = .default v)
      (missing : (field.sourceIn record).all Json.isNull = true)
      (taken : m.get? field.name = some v) (inside : n.OccursIn v)
  | computed {s : Request} {record : Json.Record} {p : Product} {m : Node} {field : Field}
      {v : Value} (run : reg.Reaches limit root s) (builds : reg.Builds limit s record p m)
      (mem : field ∈ p.fields) (derived : field.isComputed = true)
      (made : m.get? field.name = some v) (inside : n.OccursIn v) (new : ¬ p.Carries m n)

/-- Every node of an answer was built in the run, or was brought in. -/
theorem builtFrom_or_broughtIn (hplan : reg.Planned) (hroot : root.preset = none) {v : Value}
    (hv : reg.answer limit root = .ok v) (hn : n.OccursIn v) :
    reg.BuiltFrom limit root n ∨ reg.BroughtIn limit root n := by
  have hall : v.AllNodes fun n => reg.BuiltFrom limit root n ∨ reg.BroughtIn limit root n := by
    refine allNodes_of_answer hplan ?_ ?_ root v .refl (by simp [hroot]) hv
    · intro s record p m field d hrun hbuilds hmem hd hmissing htaken n hn
      exact .inr (.default hrun hbuilds hmem hd hmissing htaken hn)
    · intro s record p m hrun hbuilds hfields n hn
      rcases Node.occursIn_toValue_iff.mp hn with rfl | ⟨name, w, hmem, hn⟩
      · exact .inl ⟨s, record, p, hrun, hbuilds⟩
      -- What stands in a field that is not computed was translated before.
      · have hsupplied : p.Carries m n →
            reg.BuiltFrom limit root n ∨ reg.BroughtIn limit root n := by
          rintro ⟨field, hfield, hcomp, w, hw, hn⟩
          obtain ⟨w', hw', hanswer⟩ := hbuilds.field hfield hcomp
          cases hw.symm.trans hw'
          exact hfields field hfield hcomp w hanswer n hn
        obtain ⟨field, hfield, -, hw⟩ := hbuilds.get?_of_mem hplan hmem
        by_cases hin : p.Carries m n
        · exact hsupplied hin
        · refine .inr (.computed hrun hbuilds hfield ?_ hw hn hin)
          by_contra hcomp
          exact hin ⟨field, hfield, by simpa using hcomp, w, hw, hn⟩
  exact hall n hn

/-- No default holds a node. -/
def SparesNodes (reg : Registry) : Prop :=
  ∀ {id p field v}, reg.shape id = .product p → field ∈ p.fields →
    field.population = .default v → ∀ n : Node, ¬ n.OccursIn v

/-- Rules that make no nodes give only values whose nodes stand in the other fields. -/
theorem Builds.carries_of_occursIn (hplan : reg.Planned) (h : reg.Builds limit s record p m)
    (hrules : ∀ field ∈ p.fields, ∀ rule, field.rule? = some rule → rule.PassesNodes)
    {name : String} {v : Value} (hv : m.get? name = some v) (hn : n.OccursIn v) :
    p.Carries m n := by
  obtain ⟨slots, hslots, hsupplies⟩ := h.exists_slots
  -- Good values are those whose nodes stand in the fields that are not computed.
  have hsupplied : p.Supplied (fun _ w => ∀ n : Node, n.OccursIn w → p.Carries m n) slots := by
    refine forall₂_imp_of_mem_left ?_ (Supplies.supplied hsupplies)
    intro sibling slot hsibling hslot
    split at hslot
    · next hcomp => rw [if_pos hcomp, hslot]
    · next hcomp =>
      obtain ⟨w, rfl, hanswer⟩ := hslot
      have hplain : sibling.isComputed = false := by simpa using hcomp
      obtain ⟨w', hw', hanswer'⟩ := h.field hsibling hplain
      cases hanswer.symm.trans hanswer'
      rw [if_neg hcomp]
      exact ⟨w, rfl, fun n hn => ⟨sibling, hsibling, hplain, w, hw', hn⟩⟩
  have hpreserves : p.Preserves fun _ w => ∀ n : Node, n.OccursIn w → p.Carries m n := by
    intro field hfield rule hrule args hargs n hn
    obtain ⟨arg, harg, hn⟩ := hrules field hfield rule hrule args n hn
    obtain ⟨dep, -, sibling, -, -, hgood⟩ := exists_of_forall₂_of_mem_right hargs harg
    exact hgood n hn
  obtain ⟨hentries, -, -⟩ := Product.complete_spec (hplan h.shape) hsupplied hpreserves
  rw [← hslots] at hentries
  obtain ⟨_, -, -, hgood⟩ :=
    exists_of_forall₂_of_mem_right hentries (mem_of_lookup_eq_some hv)
  exact hgood n hn

/-- Nothing is brought in where no default holds a node and no rule makes one. -/
theorem not_broughtIn (hplan : reg.Planned) (hdefaults : reg.SparesNodes)
    (hrules : ∀ {id p field rule}, reg.shape id = .product p → field ∈ p.fields →
      field.rule? = some rule → rule.PassesNodes) :
    ¬ reg.BroughtIn limit root n := by
  rintro (⟨-, hbuilds, hmem, hd, -, -, hn⟩ | ⟨-, hbuilds, -, -, hv, hn, hnew⟩)
  · exact hdefaults hbuilds.shape hmem hd n hn
  · exact hnew (hbuilds.carries_of_occursIn hplan
      (fun field hfield rule hrule => hrules hbuilds.shape hfield hrule) hv hn)

end Registry

end TypedTree
