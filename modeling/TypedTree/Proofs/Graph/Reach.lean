/-
The search for reachable vertices finds exactly those.

Main statements:

* `Graph.Leads` — a vertex leads to another one along successors;
* `Graph.Covers` — what one search adds to the vertices met: with each of them, its
  successors;
* `Graph.mem_reach_iff` — a vertex is found if and only if a start leads to it;
* `Graph.endsSatisfy` — a check of the vertices without successors that a vertex leads to.

Design notes: the search is cut off at a depth, so it has to be shown that it is never cut
off early. Each step down has met a vertex more, and only vertices with successors lead
further down; so the depth that is left stays above the number of vertices with successors
that were not met yet.
-/
import Mathlib.Data.Finset.Card
import Mathlib.Data.Finset.Dedup
import Mathlib.Data.Finset.SDiff
import Mathlib.Logic.Relation
import TypedTree.Graph.Reach

namespace TypedTree

namespace Graph

variable {α : Type} {next : α → List α}

/-- A vertex leads to another one along successors. -/
def Leads (next : α → List α) : α → α → Prop := Relation.ReflTransGen fun v w => w ∈ next v

/-- A search keeps the vertices met so far, and with each vertex it adds come its
successors. -/
structure Covers (next : α → List α) (met met' : List α) : Prop where
  subset : ∀ {u}, u ∈ met → u ∈ met'
  closed : ∀ {u}, u ∈ met' → u ∉ met → ∀ w ∈ next u, w ∈ met'

theorem Covers.refl (met : List α) : Covers next met met := ⟨id, fun h hnot => absurd h hnot⟩

theorem Covers.trans {a b c : List α} (h : Covers next a b) (h' : Covers next b c) :
    Covers next a c := by
  refine ⟨fun hu => h'.subset (h.subset hu), fun {u} hu hnot w hw => ?_⟩
  by_cases hb : u ∈ b
  · exact h'.subset (h.closed hb hnot w hw)
  · exact h'.closed hu hb w hw

/-! ### What is found is reachable -/

theorem mem_or_of_mem_foldl {f : List α → α → List α} {P : α → Prop} {u : α}
    (hf : ∀ met v, u ∈ f met v → u ∈ met ∨ P v) :
    ∀ {vs met : List α}, u ∈ vs.foldl f met → u ∈ met ∨ ∃ v ∈ vs, P v := by
  intro vs
  induction vs with
  | nil => exact fun h => .inl h
  | cons v vs ih =>
    intro met h
    rcases ih h with hmem | ⟨w, hw, hP⟩
    · exact (hf _ _ hmem).imp_right fun hP => ⟨v, List.mem_cons_self, hP⟩
    · exact .inr ⟨w, List.mem_cons_of_mem _ hw, hP⟩

variable [DecidableEq α]

theorem leads_of_mem_reachVertex : ∀ {depth : Nat} {met : List α} {v u : α},
    u ∈ reachVertex next depth met v → u ∈ met ∨ Leads next v u := by
  intro depth
  induction depth with
  | zero => exact fun h => .inl h
  | succ depth ih =>
    intro met v u h
    rw [reachVertex] at h
    split at h
    · exact .inl h
    · rcases mem_or_of_mem_foldl (f := reachVertex next depth) (fun _ _ => ih) h with
        hmem | ⟨w, hw, hleads⟩
      · rcases List.mem_append.mp hmem with hmem | hmem
        · exact .inl hmem
        · rw [List.mem_singleton.mp hmem]
          exact .inr .refl
      · exact .inr (.head (List.mem_reverse.mp hw) hleads)

/-! ### What is reachable is found -/

/-- The vertices with successors that were not met yet are fewer than a depth. -/
def Room (support : Finset α) (depth : Nat) (met : List α) : Prop :=
  (support \ met.toFinset).card < depth

theorem Room.mono {support : Finset α} {depth : Nat} {met met' : List α}
    (h : Room support depth met) (hsub : ∀ {u}, u ∈ met → u ∈ met') :
    Room support depth met' := by
  refine Nat.lt_of_le_of_lt (Finset.card_le_card ?_) h
  exact Finset.sdiff_subset_sdiff (Finset.Subset.refl _) fun u hu =>
    List.mem_toFinset.mpr (hsub (List.mem_toFinset.mp hu))

/-- To meet a vertex with successors takes one away from those not met. -/
theorem Room.visit {support : Finset α} {depth : Nat} {met : List α} {v : α}
    (h : Room support (depth + 1) met) (hv : v ∈ support) (hnot : v ∉ met) :
    Room support depth (met ++ [v]) := by
  have hlt : (support \ (met ++ [v]).toFinset).card < (support \ met.toFinset).card := by
    refine Finset.card_lt_card (Finset.ssubset_iff_of_subset ?_ |>.mpr ⟨v, ?_, ?_⟩)
    · exact Finset.sdiff_subset_sdiff (Finset.Subset.refl _) fun u hu => by
        simp [List.mem_toFinset.mp hu]
    · simp [hv, hnot]
    · simp
  have hroom : (support \ met.toFinset).card < depth + 1 := h
  exact Nat.lt_of_lt_of_le hlt (Nat.lt_succ_iff.mp hroom)

theorem covers_foldl {support : Finset α} {depth : Nat} {f : List α → α → List α}
    (hf : ∀ {met v}, Room support depth met → Covers next met (f met v) ∧ v ∈ f met v) :
    ∀ {vs met : List α}, Room support depth met →
      Covers next met (vs.foldl f met) ∧ ∀ v ∈ vs, v ∈ vs.foldl f met := by
  intro vs
  induction vs with
  | nil => exact fun _ => ⟨.refl _, by simp⟩
  | cons v vs ih =>
    intro met hroom
    obtain ⟨hcovers, hmem⟩ := hf (v := v) hroom
    obtain ⟨hrest, hall⟩ := ih (hroom.mono hcovers.subset)
    exact ⟨hcovers.trans hrest, List.forall_mem_cons.mpr ⟨hrest.subset hmem, hall⟩⟩

/-- A search with enough room is not cut off: it meets its vertex and covers what it
adds. -/
theorem covers_reachVertex {support : Finset α} (hsupport : ∀ v, next v ≠ [] → v ∈ support) :
    ∀ {depth : Nat} {met : List α} {v : α}, Room support depth met →
      Covers next met (reachVertex next depth met v) ∧ v ∈ reachVertex next depth met v := by
  intro depth
  induction depth with
  | zero =>
    intro met v hroom
    exact absurd hroom (Nat.not_lt_zero _)
  | succ depth ih =>
    intro met v hroom
    rw [reachVertex]
    by_cases hmet : v ∈ met
    · rw [if_pos hmet]
      exact ⟨.refl _, hmet⟩
    rw [if_neg hmet]
    -- The vertex itself is met first; then the search goes through its successors.
    obtain ⟨hcovers, hall⟩ : Covers next (met ++ [v])
        ((next v).reverse.foldl (reachVertex next depth) (met ++ [v])) ∧
        ∀ w ∈ (next v).reverse,
          w ∈ (next v).reverse.foldl (reachVertex next depth) (met ++ [v]) := by
      by_cases hnil : next v = []
      · rw [hnil]
        exact ⟨.refl _, by simp⟩
      · exact covers_foldl ih (hroom.visit (hsupport v hnil) hmet)
    refine ⟨⟨fun hu => hcovers.subset (List.mem_append_left _ hu), fun {u} hu hnot w hw => ?_⟩,
      hcovers.subset (by simp)⟩
    by_cases huv : u = v
    · rw [huv] at hw
      exact hall w (List.mem_reverse.mpr hw)
    · exact hcovers.closed hu (by simp [hnot, huv]) w hw

/-- A vertex is found if and only if a start leads to it, where the bound is at least the
number of vertices with successors. -/
theorem mem_reach_iff (support : Finset α) (hsupport : ∀ v, next v ≠ [] → v ∈ support)
    {bound : Nat} (hbound : support.card ≤ bound) {starts : List α} {u : α} :
    u ∈ reach next bound starts ↔ ∃ v ∈ starts, Leads next v u := by
  constructor
  · intro hu
    obtain ⟨v, hv, hleads⟩ :=
      (mem_or_of_mem_foldl (f := reachVertex next (bound + 1))
        (fun _ _ => leads_of_mem_reachVertex) hu).resolve_left List.not_mem_nil
    exact ⟨v, List.mem_reverse.mp hv, hleads⟩
  · rintro ⟨v, hv, hleads⟩
    have hroom : Room support (bound + 1) [] := by
      refine Nat.lt_succ_of_le (Nat.le_trans ?_ hbound)
      exact Finset.card_le_card Finset.sdiff_subset
    obtain ⟨hcovers, hall⟩ :
        Covers next [] (reach next bound starts) ∧
          ∀ v ∈ starts.reverse, v ∈ reach next bound starts :=
      covers_foldl (fun h => covers_reachVertex hsupport h) hroom
    -- Nothing was met at the start, so what is found has its successors found.
    induction hleads with
    | refl => exact hall v (List.mem_reverse.mpr hv)
    | tail _ hstep ih => exact hcovers.closed ih List.not_mem_nil _ hstep

/-! ### Ends -/

omit [DecidableEq α] in
/-- Whether all vertices without successors that a vertex leads to satisfy a check, and no more
steps than given are needed to come to them. -/
def endsSatisfy (next : α → List α) (check : α → Bool) : Nat → α → Bool
  | 0, _ => false
  | steps + 1, v =>
    if (next v).isEmpty then check v else (next v).all (endsSatisfy next check steps)

omit [DecidableEq α] in
theorem of_endsSatisfy {check : α → Bool} {steps : Nat} {v u : α}
    (h : endsSatisfy next check steps v = true) (hleads : Leads next v u) (hend : next u = []) :
    check u = true := by
  induction hleads using Relation.ReflTransGen.head_induction_on generalizing steps with
  | refl =>
    cases steps with
    | zero => cases h
    | succ steps => rwa [endsSatisfy, hend] at h
  | @head v w hw _ ih =>
    cases steps with
    | zero => cases h
    | succ steps =>
      have hne : ¬ (next v).isEmpty = true := by
        rw [List.isEmpty_iff]
        exact List.ne_nil_of_mem hw
      rw [endsSatisfy, if_neg hne] at h
      exact ih (List.all_eq_true.mp h w hw)

end Graph

end TypedTree
