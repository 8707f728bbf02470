/-
A topological order exists where nothing leads to itself.

The search for an order is cut off at a depth, and it fails where it is. Main statements:

* `Graph.Path` — the unfinished vertices: a walk to the vertex at hand;
* `Graph.closedWalk_of_topological` — with enough depth, the search fails on a cycle only, and
  reports it from a vertex to that vertex;
* `Graph.topological_eq_ok_iff` — there is an order if and only if no vertex leads to itself;
* `Graph.nodup_of_topological`, `Graph.leads_of_topological` — an order lists no vertex twice,
  and only what the given vertices lead to;
* `Graph.foldlM_finishVertex_eq_topological` — a greater depth changes nothing.

Design notes: the depth that is left and the unfinished vertices are more together than all
vertices with successors. No unfinished vertex is met twice, so the depth does not run out.
-/
import Mathlib.Data.Finset.Card
import Mathlib.Data.Finset.Dedup
import Mathlib.Data.List.Chain
import TypedTree.Proofs.Graph.Reach
import TypedTree.Proofs.Traversal
import TypedTree.Graph.Topological

namespace TypedTree

namespace Graph

open Relation (TransGen)

variable {α : Type} {next : α → List α}

/-- A vertex leads to itself. -/
def OnCycle (next : α → List α) (v : α) : Prop := TransGen (fun u w => w ∈ next u) v v

/-- Nothing in an order leads to itself. -/
theorem not_onCycle_of_ordered [DecidableEq α] {order : List α} (h : Ordered next order)
    (hall : ∀ v, next v ≠ [] → v ∈ order) (v : α) : ¬ OnCycle next v := by
  have hlt : ∀ {u w : α}, TransGen (fun u w => w ∈ next u) u w →
      order.idxOf w < order.idxOf u := by
    intro u w hleads
    induction hleads with
    | single hw => exact h.idxOf_lt (hall u (List.ne_nil_of_mem hw)) hw
    | tail _ hw ih => exact Nat.lt_trans (h.idxOf_lt (hall _ (List.ne_nil_of_mem hw)) hw) ih
  exact fun hcycle => Nat.lt_irrefl _ (hlt hcycle)

/-- A list that goes from each vertex to one of its successors and ends where it begins. -/
structure ClosedWalk (next : α → List α) (cycle : List α) : Prop where
  walk : cycle.IsChain fun v w => w ∈ next v
  closed : ∃ v between, cycle = v :: between ++ [v]

/-- The last vertex of a closed walk leads to itself. -/
theorem ClosedWalk.onCycle {cycle : List α} (h : ClosedWalk next cycle) :
    ∃ v, cycle.getLast? = some v ∧ OnCycle next v := by
  obtain ⟨v, between, rfl⟩ := h.closed
  refine ⟨v, List.getLast?_concat, ?_⟩
  cases between with
  | nil => exact .single (List.isChain_cons_cons.mp h.walk).1
  | cons u between =>
    obtain ⟨hu, hwalk⟩ := List.isChain_cons_cons.mp h.walk
    exact .head' hu (List.relationReflTransGen_of_exists_isChain_cons _ hwalk (by simp))

/-! ### The search fails on cycles only -/

/-- The unfinished vertices that led to a vertex, the latest first: they are distinct, have
successors, and are a walk to that vertex. -/
structure Path (next : α → List α) (support : Finset α) (path : List α) (v : α) : Prop where
  nodup : path.Nodup
  inside : ∀ u ∈ path, u ∈ support
  walk : (v :: path).IsChain fun w u => w ∈ next u

variable {support : Finset α}

theorem Path.nil (next : α → List α) (support : Finset α) (v : α) : Path next support [] v :=
  ⟨List.nodup_nil, by simp, .singleton v⟩

/-- The path goes on through a vertex to each of its successors. -/
theorem Path.step {path : List α} {v w : α} (h : Path next support path v) (hnot : v ∉ path)
    (hsupport : ∀ v, next v ≠ [] → v ∈ support) (hw : w ∈ next v) :
    Path next support (v :: path) w where
  nodup := List.nodup_cons.mpr ⟨hnot, h.nodup⟩
  inside := List.forall_mem_cons.mpr ⟨hsupport v (List.ne_nil_of_mem hw), h.inside⟩
  walk := .cons_cons hw h.walk

variable [DecidableEq α]

theorem Path.length_le {path : List α} {v : α} (h : Path next support path v) :
    path.length ≤ support.card := by
  rw [← List.toFinset_card_of_nodup h.nodup]
  exact Finset.card_le_card fun u hu => h.inside u (List.mem_toFinset.mp hu)

/-- Where a vertex is met again, the path since then closes. -/
theorem Path.closedWalk {path : List α} {v : α} (h : Path next support path v) (hv : v ∈ path) :
    ClosedWalk next (v :: (path.takeWhile (· ≠ v)).reverse ++ [v]) := by
  obtain ⟨before, after, rfl, hnot⟩ := List.eq_append_cons_of_mem hv
  have htake : (before ++ v :: after).takeWhile (· ≠ v) = before := by
    rw [List.takeWhile_append_of_pos, List.takeWhile_cons_of_neg, List.append_nil]
    · simp
    · intro u hu
      simpa using fun heq : u = v => hnot (heq ▸ hu)
  refine ⟨?_, v, before.reverse, by rw [htake]⟩
  have hwalk : (v :: before ++ [v]).IsChain fun w u => w ∈ next u :=
    h.walk.prefix ⟨after, by simp⟩
  rw [htake, ← List.isChain_reverse]
  simpa using hwalk

/-- Where the depth exceeds what is left of the vertices with successors, the search from a
vertex fails on a cycle only. -/
theorem closedWalk_of_finishVertex (hsupport : ∀ v, next v ≠ [] → v ∈ support) :
    ∀ {depth : Nat} {path done : List α} {v : α} {cycle : List α}, Path next support path v →
      support.card < depth + path.length → finishVertex next depth path done v = .error cycle →
        ClosedWalk next cycle := by
  -- By induction on the depth. At the bottom the path would be longer than there are vertices with
  -- successors.
  intro depth
  induction depth with
  | zero =>
    intro path done v cycle hpath hdepth _
    have hlength := hpath.length_le
    omega
  | succ depth ih =>
    intro path done v cycle hpath hdepth h
    rw [finishVertex] at h
    split at h
    · cases h
    · split at h
      · next hmem =>
        cases h
        exact hpath.closedWalk hmem
      · next hnot =>
        cases hfold : (next v).foldlM (finishVertex next depth (v :: path)) done with
        | ok mid =>
          rw [hfold] at h
          cases h
        | error e =>
          rw [hfold] at h
          cases h
          obtain ⟨w, hw, mid, hw'⟩ := exists_of_foldlM_eq_error hfold
          refine ih (hpath.step hnot hsupport hw) ?_ hw'
          rw [List.length_cons]
          omega

theorem mem_toFinset_of_successors {vertices : List α}
    (hall : ∀ v, next v ≠ [] → v ∈ vertices) : ∀ v, next v ≠ [] → v ∈ vertices.toFinset :=
  fun v hv => List.mem_toFinset.mpr (hall v hv)

/-- A search that fails reports a cycle, where all vertices with successors are among the given
ones. -/
theorem closedWalk_of_topological {vertices cycle : List α}
    (hall : ∀ v, next v ≠ [] → v ∈ vertices) (h : topological next vertices = .error cycle) :
    ClosedWalk next cycle := by
  obtain ⟨v, -, done, hv⟩ := exists_of_foldlM_eq_error h
  refine closedWalk_of_finishVertex (mem_toFinset_of_successors hall) (.nil _ _ v) ?_ hv
  have hcard := vertices.toFinset_card_le
  rw [List.length_nil]
  omega

/-- The last vertex of the report leads to itself. -/
theorem exists_cycle_of_topological {vertices cycle : List α}
    (hall : ∀ v, next v ≠ [] → v ∈ vertices) (h : topological next vertices = .error cycle) :
    ∃ u, cycle.getLast? = some u ∧ OnCycle next u := (closedWalk_of_topological hall h).onCycle

/-- There is an order if and only if nothing leads to itself. -/
theorem topological_eq_ok_iff {vertices : List α} (hall : ∀ v, next v ≠ [] → v ∈ vertices) :
    (∃ order, topological next vertices = .ok order) ↔ ∀ v, ¬ OnCycle next v := by
  constructor
  · rintro ⟨order, h⟩
    obtain ⟨hordered, hmem⟩ := ordered_of_topological h
    exact not_onCycle_of_ordered hordered fun v hv => hmem v (hall v hv)
  · intro hnone
    cases h : topological next vertices with
    | ok order => exact ⟨order, rfl⟩
    | error cycle =>
      obtain ⟨u, -, hcycle⟩ := exists_cycle_of_topological hall h
      exact absurd hcycle (hnone u)

/-! ### What an order lists -/

/-- The finished vertices are distinct, and none of them is unfinished. -/
def Apart (path done : List α) : Prop := done.Nodup ∧ ∀ u ∈ path, u ∉ done

theorem apart_of_finishVertex : ∀ {depth : Nat} {path done : List α} {v : α} {done' : List α},
    Apart path done → finishVertex next depth path done v = .ok done' → Apart path done' := by
  intro depth
  induction depth with
  | zero =>
    intro path done v done' _ h
    cases h
  | succ depth ih =>
    intro path done v done' hapart h
    rw [finishVertex] at h
    split at h
    · cases h
      exact hapart
    · next hdone =>
      split at h
      · cases h
      · next hpath =>
        obtain ⟨mid, hmid, h⟩ := bind_eq_ok_iff.mp h
        cases h
        -- Until it is finished itself, the vertex is kept out as an unfinished one.
        obtain ⟨hnodup, hout⟩ : Apart (v :: path) mid :=
          foldlM_keeps (fun _ _ _ _ => ih) ⟨hapart.1, List.forall_mem_cons.mpr ⟨hdone, hapart.2⟩⟩
            hmid
        obtain ⟨hv, hout⟩ := List.forall_mem_cons.mp hout
        refine ⟨List.concat_eq_append ▸ hnodup.concat hv, fun u hu hmem => ?_⟩
        rcases List.mem_append.mp hmem with hmem | hmem
        · exact hout u hu hmem
        · exact hpath (List.mem_singleton.mp hmem ▸ hu)

/-- An order lists no vertex twice. -/
theorem nodup_of_topological {vertices order : List α} (h : topological next vertices = .ok order) :
    order.Nodup := by
  have hapart : Apart [] order :=
    foldlM_keeps (fun _ _ _ _ => apart_of_finishVertex) ⟨List.nodup_nil, by simp⟩ h
  exact hapart.1

theorem leads_of_finishVertex : ∀ {depth : Nat} {path done : List α} {v : α} {done' : List α},
    finishVertex next depth path done v = .ok done' → ∀ u ∈ done', u ∈ done ∨ Leads next v u := by
  intro depth
  induction depth with
  | zero =>
    intro path done v done' h
    cases h
  | succ depth ih =>
    intro path done v done' h
    rw [finishVertex] at h
    split at h
    · cases h
      exact fun u hu => .inl hu
    · split at h
      · cases h
      · obtain ⟨mid, hmid, h⟩ := bind_eq_ok_iff.mp h
        cases h
        -- The successors are visited one after another, each adding what it leads to.
        have hfold : ∀ u ∈ mid, u ∈ done ∨ Leads next v u := by
          refine foldlM_keeps (P := fun acc => ∀ u ∈ acc, u ∈ done ∨ Leads next v u) ?_
            (fun u hu => .inl hu) hmid
          intro w hw acc acc' hacc hstep u hu
          rcases ih hstep u hu with hmem | hleads
          · exact hacc u hmem
          · exact .inr (.head hw hleads)
        intro u hu
        rcases List.mem_append.mp hu with hu | hu
        · exact hfold u hu
        · rw [List.mem_singleton.mp hu]
          exact .inr .refl

/-- An order lists only what the given vertices lead to. -/
theorem leads_of_topological {vertices order : List α} (h : topological next vertices = .ok order) :
    ∀ u ∈ order, ∃ v ∈ vertices, Leads next v u := by
  refine foldlM_keeps (P := fun acc => ∀ u ∈ acc, ∃ v ∈ vertices, Leads next v u) ?_ (by simp) h
  intro v hv acc acc' hacc hstep u hu
  rcases leads_of_finishVertex hstep u hu with hmem | hleads
  · exact hacc u hmem
  · exact ⟨v, hv, hleads⟩

/-! ### The depth -/

/-- Once the depth exceeds what is left of the vertices with successors, the search from a
vertex does not depend on it. -/
theorem finishVertex_succ (hsupport : ∀ v, next v ≠ [] → v ∈ support) :
    ∀ {depth : Nat} {path done : List α} {v : α}, Path next support path v →
      support.card < depth + path.length →
        finishVertex next (depth + 1) path done v = finishVertex next depth path done v := by
  intro depth
  induction depth with
  | zero =>
    intro path done v hpath hdepth
    have hlength := hpath.length_le
    omega
  | succ depth ih =>
    intro path done v hpath hdepth
    rw [finishVertex, finishVertex]
    by_cases hdone : v ∈ done
    · rw [if_pos hdone, if_pos hdone]
    by_cases hmem : v ∈ path
    · rw [if_neg hdone, if_neg hdone, if_pos hmem, if_pos hmem]
    have hfold : (next v).foldlM (finishVertex next (depth + 1) (v :: path)) done =
        (next v).foldlM (finishVertex next depth (v :: path)) done := by
      refine foldlM_congr_of_mem fun w hw acc => ih (hpath.step hmem hsupport hw) ?_
      rw [List.length_cons]
      omega
    rw [if_neg hdone, if_neg hdone, if_neg hmem, if_neg hmem, hfold]

/-- The search for an order comes to the same end with any greater depth. -/
theorem foldlM_finishVertex_eq_topological {vertices : List α}
    (hall : ∀ v, next v ≠ [] → v ∈ vertices) {depth : Nat} (hdepth : vertices.length < depth) :
    vertices.foldlM (finishVertex next depth []) [] = topological next vertices := by
  induction depth, hdepth using Nat.le_induction with
  | base => rfl
  | succ depth hdepth ih =>
    rw [← ih]
    refine foldlM_congr_of_mem fun v _ acc =>
      finishVertex_succ (mem_toFinset_of_successors hall) (.nil _ _ v) ?_
    have hcard := vertices.toFinset_card_le
    rw [List.length_nil]
    omega

end Graph

end TypedTree
