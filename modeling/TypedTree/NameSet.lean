/-
Finite sets of names.

A set is the strictly increasing list of its members, so two sets with the same
members are equal. Main statements:

* `NameSet.mem_insert`, `NameSet.mem_union`, `NameSet.mem_diff` and
  `NameSet.mem_ofList` — what each operation does to membership;
* `NameSet.ext` — sets with the same members are equal.
-/

namespace TypedTree

/-- A finite set of names, listed in increasing order. -/
structure NameSet where
  toList : List String
  sorted : toList.Pairwise (· < ·) := by exact List.Pairwise.nil
deriving DecidableEq

namespace NameSet

instance : Membership String NameSet := ⟨fun s x => x ∈ s.toList⟩

theorem mem_def {x : String} {s : NameSet} : x ∈ s ↔ x ∈ s.toList := Iff.rfl

instance (x : String) (s : NameSet) : Decidable (x ∈ s) :=
  inferInstanceAs (Decidable (x ∈ s.toList))

/-- The set without members. -/
def empty : NameSet := { toList := [] }

@[simp] theorem not_mem_empty (x : String) : x ∉ empty := by simp [mem_def, empty]

/-! ### Inserting -/

/-- Puts a name in its place in an increasing list. -/
def insertSorted (name : String) : List String → List String
  | [] => [name]
  | x :: rest =>
    if name < x then name :: x :: rest
    else if name = x then x :: rest
    else x :: insertSorted name rest

theorem mem_insertSorted {x name : String} {l : List String} :
    x ∈ insertSorted name l ↔ x = name ∨ x ∈ l := by
  induction l with
  | nil => simp [insertSorted]
  | cons y rest ih =>
    rw [insertSorted]
    split
    · simp
    · split
      · next h => subst h; simp
      · simp only [List.mem_cons, ih]
        constructor
        · rintro (h | h | h) <;> simp [h]
        · rintro (h | h | h) <;> simp [h]

private theorem lt_of_not_lt_of_ne {a b : String} (h : ¬ a < b) (hne : a ≠ b) : b < a := by
  rcases Decidable.em (b < a) with hlt | hlt
  · exact hlt
  · exact absurd (String.le_antisymm (String.not_lt.mp hlt) (String.not_lt.mp h)) hne

theorem pairwise_insertSorted {name : String} {l : List String} (h : l.Pairwise (· < ·)) :
    (insertSorted name l).Pairwise (· < ·) := by
  induction l with
  | nil => simp [insertSorted]
  | cons y rest ih =>
    have hy := List.pairwise_cons.mp h
    rw [insertSorted]
    split
    · next hlt =>
      refine List.pairwise_cons.mpr ⟨fun z hz => ?_, h⟩
      rcases List.mem_cons.mp hz with rfl | hz
      · exact hlt
      · exact String.lt_trans hlt (hy.1 z hz)
    · next hnlt =>
      split
      · exact h
      · next hne =>
        refine List.pairwise_cons.mpr ⟨fun z hz => ?_, ih hy.2⟩
        rcases mem_insertSorted.mp hz with rfl | hz
        · exact lt_of_not_lt_of_ne hnlt hne
        · exact hy.1 z hz

/-- The set with one more name. -/
def insert (s : NameSet) (name : String) : NameSet where
  toList := insertSorted name s.toList
  sorted := pairwise_insertSorted s.sorted

@[simp] theorem mem_insert {x name : String} {s : NameSet} :
    x ∈ s.insert name ↔ x = name ∨ x ∈ s := mem_insertSorted

/-! ### Combining -/

/-- The set of the given names. -/
def ofList (names : List String) : NameSet := names.foldl insert empty

/-- The names in either set. -/
def union (s t : NameSet) : NameSet := t.toList.foldl insert s

/-- The names in the first set and not in the second. -/
def diff (s t : NameSet) : NameSet where
  toList := s.toList.filter (· ∉ t.toList)
  sorted := s.sorted.filter _

theorem mem_foldl_insert {x : String} {names : List String} {s : NameSet} :
    x ∈ names.foldl insert s ↔ x ∈ s ∨ x ∈ names := by
  induction names generalizing s with
  | nil => simp
  | cons y rest ih =>
    rw [List.foldl_cons, ih, mem_insert, List.mem_cons]
    constructor
    · rintro ((h | h) | h) <;> simp [h]
    · rintro (h | h | h) <;> simp [h]

@[simp] theorem mem_ofList {x : String} {names : List String} : x ∈ ofList names ↔ x ∈ names := by
  simp [ofList, mem_foldl_insert]

@[simp] theorem mem_union {x : String} {s t : NameSet} : x ∈ s.union t ↔ x ∈ s ∨ x ∈ t :=
  mem_foldl_insert

@[simp] theorem mem_diff {x : String} {s t : NameSet} : x ∈ s.diff t ↔ x ∈ s ∧ x ∉ t := by
  simp [mem_def, diff]

/-! ### Extensionality -/

private theorem eq_of_sorted : ∀ {l m : List String}, l.Pairwise (· < ·) → m.Pairwise (· < ·) →
    (∀ x, x ∈ l ↔ x ∈ m) → l = m
  | [], [], _, _, _ => rfl
  | [], y :: _, _, _, h => absurd ((h y).mpr (by simp)) (by simp)
  | x :: _, [], _, _, h => absurd ((h x).mp (by simp)) (by simp)
  | x :: l, y :: m, hl, hm, h => by
    have hx := List.pairwise_cons.mp hl
    have hy := List.pairwise_cons.mp hm
    have hxy : x = y := by
      rcases List.mem_cons.mp ((h x).mp (by simp)) with rfl | hxm
      · rfl
      · rcases List.mem_cons.mp ((h y).mpr (by simp)) with rfl | hyl
        · rfl
        · exact absurd (String.lt_trans (hx.1 y hyl) (hy.1 x hxm)) (String.lt_irrefl x)
    subst hxy
    congr 1
    refine eq_of_sorted hx.2 hy.2 fun z => ?_
    constructor
    · intro hz
      rcases List.mem_cons.mp ((h z).mp (List.mem_cons_of_mem _ hz)) with rfl | hz'
      · exact absurd (hx.1 z hz) (String.lt_irrefl z)
      · exact hz'
    · intro hz
      rcases List.mem_cons.mp ((h z).mpr (List.mem_cons_of_mem _ hz)) with rfl | hz'
      · exact absurd (hy.1 z hz) (String.lt_irrefl z)
      · exact hz'

theorem ext {s t : NameSet} (h : ∀ x, x ∈ s ↔ x ∈ t) : s = t := by
  have := eq_of_sorted s.sorted t.sorted h
  cases s; cases t
  simp only at this
  subst this
  rfl

end NameSet

end TypedTree
