/-
Paths and their steps.

A path is determined by its steps from the root on, since the numbers that its chain holds are
those of the steps. Main statements:

* `Path.depth_eq_length_keys` — the depth of a path is the number of its steps;
* `Path.equals_iff_keys` — paths are equal if and only if their steps are the same;
* `Path.startsWith_iff` — a path starts with those whose steps its own begin with;
* `Path.agrees_with_keys` — comparisons of paths are comparisons of their steps, whatever is known
  of the paths in memory.
-/
import TypedTree.Path

namespace TypedTree

namespace PathChain

variable {chain other start : PathChain} {sharing : Sharing}

theorem Counted.depth_eq (h : chain.Counted) : chain.depth = chain.keys.length := by
  induction chain with
  | empty => rfl
  | step key parent depth ih =>
    obtain ⟨rfl, hparent⟩ := h
    rw [PathChain.depth, keys, List.length_append, List.length_singleton, ih hparent]

/-- A chain with right numbers is determined by its steps. -/
theorem Counted.eq_of_keys (h : chain.Counted) (h' : other.Counted)
    (hkeys : chain.keys = other.keys) : chain = other := by
  induction chain generalizing other with
  | empty =>
    cases other with
    | empty => rfl
    | step key parent depth => simp [keys] at hkeys
  | step key parent depth ih =>
    cases other with
    | empty => simp [keys] at hkeys
    | step key' parent' depth' =>
      obtain ⟨hparent, hkey⟩ := List.append_inj' hkeys rfl
      cases hkey
      obtain rfl := ih h.2 h'.2 hparent
      rw [h.1, h'.1]

theorem Counted.equals_iff (h : chain.Counted) (h' : other.Counted) :
    chain.equals sharing other = true ↔ chain.keys = other.keys :=
  PathChain.equals_iff.trans ⟨congrArg keys, h.eq_of_keys h'⟩

/-- The numbers tell how many steps to leave away. -/
theorem Counted.startsWith_iff (h : chain.Counted) (hstart : start.Counted) :
    startsWith sharing start chain = true ↔ start.keys <+: chain.keys := by
  induction chain with
  | empty =>
    rw [startsWith, h.equals_iff hstart, keys, List.prefix_nil, eq_comm]
  | step key parent depth ih =>
    have hdepth : depth = (keys (step key parent depth)).length := h.depth_eq
    rw [startsWith]
    split
    · next hlonger =>
      -- All steps of `start` come before the last one.
      rw [ih h.2, keys, List.prefix_concat_iff, or_iff_right]
      intro heq
      rw [hstart.depth_eq, heq, hdepth, keys] at hlonger
      exact Nat.lt_irrefl _ hlonger
    · next hshort =>
      rw [h.equals_iff hstart]
      constructor
      · intro heq
        exact heq ▸ List.prefix_rfl
      · intro hbegins
        refine (hbegins.eq_of_length_le ?_).symm
        rw [← hstart.depth_eq, ← hdepth]
        exact Nat.le_of_not_lt hshort

end PathChain

namespace Path

variable {path other start : Path} {sharing : Sharing}

theorem depth_eq_length_keys (path : Path) : path.depth = path.keys.length :=
  path.counted.depth_eq

theorem equals_iff_keys : path.equals other sharing = true ↔ path.keys = other.keys :=
  path.counted.equals_iff other.counted

/-- A field and an item are different steps, even if they are written alike. -/
example : (root.field "0").render = (root.index 0).render ∧
    (root.field "0").equals (root.index 0) = false := by decide

theorem startsWith_iff : path.startsWith start sharing = true ↔ start.keys <+: path.keys :=
  path.counted.startsWith_iff start.counted

/-- A path starts with another one if its steps do. -/
theorem startsWith_of_keys {more : List PathKey} (h : path.keys = start.keys ++ more) :
    path.startsWith start = true := startsWith_iff.mpr ⟨more, h.symm⟩

theorem keys_parent? {parent : Path} (h : path.parent? = some parent) :
    parent.keys = path.keys.dropLast := by
  obtain ⟨chain, counted⟩ := path
  cases chain with
  | empty => cases h
  | step key before depth =>
    cases h
    exact List.dropLast_concat.symm

/-- Paths are what their steps are. Every operation says what it does to the steps, the depth is
their number, and comparing two paths is comparing their steps, whatever is known of the paths in
memory. So being the same is an equivalence, and leading on from another path is a partial order,
in which the path without steps comes first. -/
theorem agrees_with_keys (sharing : Sharing) :
    (∀ path : Path, path.depth = path.keys.length) ∧
    (∀ path other : Path, path.equals other sharing = true ↔ path.keys = other.keys) ∧
    (∀ path start : Path, path.startsWith start sharing = true ↔ start.keys <+: path.keys) ∧
    (empty.keys = [] ∧ root.keys = [.field "root"] ∧
      (∀ (path : Path) name, (path.field name).keys = path.keys ++ [.field name]) ∧
      (∀ (path : Path) position, (path.index position).keys = path.keys ++ [.index position]) ∧
      (∀ path parent : Path, path.parent? = some parent → parent.keys = path.keys.dropLast)) ∧
    ((∀ (path : Path) name, (path.field name).parent? = some path) ∧
      ∀ (path : Path) position, (path.index position).parent? = some path) ∧
    (Equivalence fun path other : Path => path.equals other sharing = true) ∧
    ((∀ path : Path, path.startsWith path sharing = true) ∧
      (∀ path other : Path, path.startsWith other sharing = true →
        other.startsWith path sharing = true → path.equals other sharing = true) ∧
      (∀ path middle start : Path, path.startsWith middle sharing = true →
        middle.startsWith start sharing = true → path.startsWith start sharing = true) ∧
      ∀ path : Path, path.startsWith empty sharing = true) := by
  refine ⟨depth_eq_length_keys, fun _ _ => equals_iff_keys, fun _ _ => startsWith_iff,
    ⟨rfl, rfl, fun _ _ => rfl, fun _ _ => rfl, fun _ _ => keys_parent?⟩,
    ⟨fun _ _ => rfl, fun _ _ => rfl⟩, ⟨?_, ?_, ?_⟩, ?_, ?_, ?_, ?_⟩
  · exact fun _ => equals_iff.mpr rfl
  · exact fun h => equals_iff.mpr (equals_iff.mp h).symm
  · exact fun h h' => equals_iff.mpr ((equals_iff.mp h).trans (equals_iff.mp h'))
  · exact fun _ => startsWith_iff.mpr List.prefix_rfl
  · intro path other h h'
    have hbegins : other.keys <+: path.keys := startsWith_iff.mp h
    exact equals_iff_keys.mpr ((startsWith_iff.mp h').eq_of_length_le hbegins.length_le)
  · exact fun _ _ _ h h' => startsWith_iff.mpr ((startsWith_iff.mp h').trans (startsWith_iff.mp h))
  · exact fun _ => startsWith_iff.mpr List.nil_prefix

/-- One chain is known to be one with itself, wherever it is met. -/
def onlyKnown (chain : PathChain) : Sharing where
  one other other' := other.equals .unknown chain && other'.equals .unknown chain
  eq_of_one h := by
    obtain ⟨hother, hother'⟩ := Bool.and_eq_true_iff.mp h
    rw [PathChain.equals_iff.mp hother, PathChain.equals_iff.mp hother']

/-- Two paths are compared down to the part that they have in common in memory. -/
theorem agrees_with_keys_common :
    let body := root.field "body"
    let argument := (body.index 2).field "argument"
    let known := onlyKnown body.chain
    known.one body.chain body.chain = true ∧ argument.depth = 4 ∧
      argument.equals ((body.index 2).field "argument") known = true ∧
      (argument.startsWith body known = true ∧ body.startsWith root known = true ∧
        argument.startsWith root known = true) ∧
      argument.startsWith (root.field "head") known = false ∧
      argument.parent? = some (body.index 2) ∧
      (body.index 2).keys = argument.keys.dropLast := by
  intro body argument known
  obtain ⟨hdepth, hequals, hstarts, ⟨-, -, -, -, hparent⟩, ⟨hfield, -⟩, -, -, -, htrans, -⟩ :=
    agrees_with_keys known
  have hbody : argument.startsWith body known = true :=
    (hstarts argument body).mpr ⟨[.index 2, .field "argument"], rfl⟩
  have hroot : body.startsWith root known = true :=
    (hstarts body root).mpr ⟨[.field "body"], rfl⟩
  exact ⟨by decide, hdepth argument, (hequals _ _).mpr rfl,
    ⟨hbody, hroot, htrans argument body root hbody hroot⟩, by decide, hfield _ _,
    hparent argument (body.index 2) (hfield _ _)⟩

end Path

end TypedTree
