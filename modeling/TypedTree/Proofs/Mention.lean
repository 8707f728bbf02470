/-
Things taken up as they are first mentioned.

Main statements:

* `ByFirstMention` — things stand in the order in which they are first mentioned, none of them
  twice;
* `byFirstMention_distinct` — so do the things that are taken up one by one, unless they are there
  already.
-/
import TypedTree.Proofs.Traversal

namespace TypedTree

variable {α : Type} [DecidableEq α]

/-- Each thing is first mentioned before those that stand after it. -/
def ByFirstMention (mentions l : List α) : Prop :=
  l.Pairwise fun a b => mentions.idxOf a < mentions.idxOf b

theorem ByFirstMention.nodup {mentions l : List α} (h : ByFirstMention mentions l) : l.Nodup := by
  refine List.Pairwise.imp (fun hlt => ?_) h
  rintro rfl
  exact Nat.lt_irrefl _ hlt

theorem ByFirstMention.filter {mentions l : List α} (h : ByFirstMention mentions l)
    (p : α → Bool) : ByFirstMention mentions (l.filter p) := List.Pairwise.filter p h

/-- One more mention leaves the order as it is, if it is of a new thing at the end or of one that
is there. -/
theorem ByFirstMention.mention {mentions seen : List α} (h : ByFirstMention mentions seen)
    (hseen : ∀ a, a ∈ seen ↔ a ∈ mentions) (b : α) :
    ByFirstMention (mentions ++ [b]) (if b ∈ seen then seen else seen ++ [b]) := by
  have hold : ∀ a ∈ seen, (mentions ++ [b]).idxOf a = mentions.idxOf a :=
    fun a ha => List.idxOf_append_of_mem ((hseen a).mp ha)
  have hkept : ByFirstMention (mentions ++ [b]) seen := by
    refine List.Pairwise.imp_of_mem (fun ha hb hlt => ?_) h
    rwa [hold _ ha, hold _ hb]
  split
  · exact hkept
  · next hnew =>
    refine List.pairwise_append.mpr ⟨hkept, List.pairwise_singleton _ _, fun a ha c hc => ?_⟩
    obtain rfl := List.mem_singleton.mp hc
    have hplace : (mentions ++ [c]).idxOf c = mentions.length := by
      rw [List.idxOf_append_of_notMem fun hc => hnew ((hseen c).mpr hc), List.idxOf_cons_self]
      rfl
    rw [hold a ha, hplace]
    exact List.idxOf_lt_length_of_mem ((hseen a).mp ha)

/-- What is taken up one by one, unless it is there already, stands by its first mention. -/
theorem byFirstMention_distinct (l : List α) :
    ByFirstMention l (l.foldl (fun seen b => if b ∈ seen then seen else seen ++ [b]) []) := by
  -- The invariant speaks of the mentions so far.
  have hrun : ∀ (later before seen : List α), (∀ a, a ∈ seen ↔ a ∈ before) →
      ByFirstMention before seen → ByFirstMention (before ++ later)
        (later.foldl (fun seen b => if b ∈ seen then seen else seen ++ [b]) seen) := by
    intro later
    induction later with
    | nil =>
      intro before seen _ h
      rwa [List.append_nil]
    | cons b later ih =>
      intro before seen hseen h
      rw [List.foldl_cons, List.append_cons]
      refine ih _ _ (fun a => ?_) (h.mention hseen b)
      by_cases hmem : b ∈ seen
      · have hb : b ∈ before := (hseen b).mp hmem
        rw [if_pos hmem, hseen, List.mem_append, List.mem_singleton]
        exact ⟨.inl, fun h => h.elim id fun heq => heq ▸ hb⟩
      · rw [if_neg hmem, List.mem_append, List.mem_append, hseen]
  exact hrun l [] [] (fun _ => Iff.rfl) List.Pairwise.nil

end TypedTree
