/-
Topological order by depth-first search.

A graph is given by the list of successors of each vertex. Main statements:

* `Graph.topological` — either the vertices so ordered that successors come first,
  or a cycle;
* `Graph.Ordered` — what such an order promises;
* `Graph.ordered_of_topological` — the search keeps that promise, and leaves out no
  vertex it was given.

The bound on the depth of the search is one more than the number of vertices: a
chain of distinct vertices with successors is not longer than that.
-/

namespace TypedTree

namespace Graph

variable {α : Type}

/-- Adds to the finished vertices those that are newly finished from `v` on, and `v`
itself behind them. `path` holds the unfinished vertices that led to `v`, the latest
first; meeting one of them again closes a cycle, which is listed from that vertex to
that vertex. -/
def finishVertex [DecidableEq α] (next : α → List α) :
    Nat → List α → List α → α → Except (List α) (List α)
  | 0, _, _, _ => .error []
  | depth + 1, path, done, v =>
    if v ∈ done then .ok done
    else if v ∈ path then .error (v :: (path.takeWhile (· ≠ v)).reverse ++ [v])
    else do
      let done ← (next v).foldlM (finishVertex next depth (v :: path)) done
      return done ++ [v]

/-- The vertices and all they lead to, successors first; or a cycle among them. -/
def topological [DecidableEq α] (next : α → List α) (vertices : List α) :
    Except (List α) (List α) :=
  vertices.foldlM (finishVertex next (vertices.length + 1) []) []

/-- Every successor of a listed vertex is listed before it. -/
def Ordered (next : α → List α) (order : List α) : Prop :=
  ∀ before v after, order = before ++ v :: after → ∀ w ∈ next v, w ∈ before

theorem ordered_nil (next : α → List α) : Ordered next [] := by
  intro before v after h
  simp at h

theorem Ordered.concat {next : α → List α} {order : List α} {v : α} (h : Ordered next order)
    (hv : ∀ w ∈ next v, w ∈ order) : Ordered next (order ++ [v]) := by
  intro before u after heq w hw
  rcases List.eq_nil_or_concat after with rfl | ⟨after', x, rfl⟩
  · have := List.append_inj' heq rfl
    obtain ⟨rfl, hu⟩ := this
    simp only [List.cons.injEq, and_true] at hu
    subst hu
    exact hv w hw
  · rw [List.concat_eq_append, ← List.cons_append, ← List.append_assoc] at heq
    have := List.append_inj' heq rfl
    exact h before u after' this.1 w hw

/-- What one search adds keeps the order, extends what was finished, and finishes its
vertex. -/
structure Extends (next : α → List α) (done done' : List α) : Prop where
  ordered : Ordered next done → Ordered next done'
  subset : ∀ {w}, w ∈ done → w ∈ done'

theorem Extends.refl (next : α → List α) (done : List α) : Extends next done done :=
  ⟨id, id⟩

theorem Extends.trans {next : α → List α} {a b c : List α} (h : Extends next a b)
    (h' : Extends next b c) : Extends next a c :=
  ⟨h'.ordered ∘ h.ordered, h'.subset ∘ h.subset⟩

theorem extends_foldlM {next : α → List α} {f : List α → α → Except (List α) (List α)}
    (hf : ∀ {done v done'}, f done v = .ok done' → Extends next done done' ∧ v ∈ done') :
    ∀ {vs : List α} {done done' : List α}, vs.foldlM f done = .ok done' →
      Extends next done done' ∧ ∀ v ∈ vs, v ∈ done'
  | [], done, done', h => by
    simp only [List.foldlM_nil, pure, Except.pure, Except.ok.injEq] at h
    subst h
    exact ⟨.refl _ _, by simp⟩
  | v :: vs, done, done', h => by
    rw [List.foldlM_cons] at h
    cases hv : f done v with
    | error e => rw [hv] at h; cases h
    | ok mid =>
      rw [hv] at h
      obtain ⟨h₁, hmem⟩ := hf hv
      obtain ⟨h₂, hrest⟩ := extends_foldlM hf h
      refine ⟨h₁.trans h₂, fun w hw => ?_⟩
      rcases List.mem_cons.mp hw with rfl | hw
      · exact h₂.subset hmem
      · exact hrest w hw

theorem extends_finishVertex [DecidableEq α] {next : α → List α} :
    ∀ {depth : Nat} {path done : List α} {v : α} {done' : List α}, finishVertex next depth path done v = .ok done' →
      Extends next done done' ∧ v ∈ done'
  | 0, _, _, _, _, h => by simp [finishVertex] at h
  | depth + 1, path, done, v, done', h => by
    rw [finishVertex] at h
    split at h
    · next hv =>
      cases h
      exact ⟨.refl _ _, hv⟩
    · split at h
      · cases h
      · cases hmid : (next v).foldlM (finishVertex next depth (v :: path)) done with
        | error e => rw [hmid] at h; cases h
        | ok mid =>
          rw [hmid] at h
          cases h
          obtain ⟨hext, hall⟩ := extends_foldlM extends_finishVertex hmid
          refine ⟨⟨fun hd => (hext.ordered hd).concat hall, fun hw => ?_⟩, ?_⟩
          · exact List.mem_append_left _ (hext.subset hw)
          · simp

/-- A topological order lists successors first and every vertex it was asked for. -/
theorem ordered_of_topological [DecidableEq α] {next : α → List α} {vertices order : List α}
    (h : topological next vertices = .ok order) :
    Ordered next order ∧ ∀ v ∈ vertices, v ∈ order := by
  obtain ⟨hext, hall⟩ := extends_foldlM extends_finishVertex h
  exact ⟨hext.ordered (ordered_nil next), hall⟩

/-- In an order, a vertex is at a later position than its successors. -/
theorem Ordered.idxOf_lt [DecidableEq α] {next : α → List α} {order : List α}
    (h : Ordered next order) {v w : α} (hv : v ∈ order) (hw : w ∈ next v) : order.idxOf w < order.idxOf v := by
  obtain ⟨before, after, rfl, hnot⟩ := List.eq_append_cons_of_mem hv
  have hmem := h before v after rfl w hw
  rw [List.idxOf_append, if_pos hmem, List.idxOf_append, if_neg hnot]
  have := List.idxOf_lt_length_of_mem hmem
  omega

end Graph

end TypedTree
