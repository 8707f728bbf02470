/-
The members of a union, read off its name.

The name of a union is put together from the names of its members, which may be names of unions
themselves. What can be read off it are the members that are left when all unions in it are
opened. Main statements:

* `pieces` — a text, cut at the bars outside of brackets;
* `Whole`, `Balanced` — a text with matching brackets, without such bars and possibly with them;
* `Balanced.union`, `Balanced.brackets` — names of unions are balanced, and what stands in brackets
  is whole;
* `pieces_intercalate` — the pieces of the name of a union are those of the names of its members.

Design notes: a name is cut with a space at either end, so the piece of a member is the same
wherever the member stands. That brackets match is said by what cutting does: the text may be put
before any other one.
-/
import TypedTree.Proofs.Synthesis.Label

namespace TypedTree

/-! ### Cutting -/

/-- How many brackets are open behind a character. -/
def openBehind (depth : Nat) (c : Char) : Nat :=
  if c = '<' then depth + 1 else if c = '>' then depth - 1 else depth

/-- A text behind so many open brackets, cut at the bars outside of brackets. -/
def pieces : Nat → List Char → List (List Char)
  | _, [] => [[]]
  | depth, c :: rest =>
    if c = '|' ∧ depth = 0 then [] :: pieces depth rest
    else (pieces (openBehind depth c) rest).modifyHead (c :: ·)

theorem pieces_nil (depth : Nat) : pieces depth [] = [[]] := rfl

theorem pieces_of_bar {depth : Nat} {c : Char} (h : c = '|' ∧ depth = 0) (rest : List Char) :
    pieces depth (c :: rest) = [] :: pieces depth rest := if_pos h

theorem pieces_bar (rest : List Char) : pieces 0 ('|' :: rest) = [] :: pieces 0 rest :=
  pieces_of_bar ⟨rfl, rfl⟩ rest

theorem pieces_cons {depth : Nat} {c : Char} (h : ¬ (c = '|' ∧ depth = 0)) (rest : List Char) :
    pieces depth (c :: rest) = (pieces (openBehind depth c) rest).modifyHead (c :: ·) := if_neg h

theorem pieces_ne_nil (depth : Nat) (text : List Char) : pieces depth text ≠ [] := by
  induction text generalizing depth with
  | nil => exact List.cons_ne_nil _ _
  | cons c rest ih =>
    by_cases h : c = '|' ∧ depth = 0
    · rw [pieces_of_bar h]
      exact List.cons_ne_nil _ _
    · rw [pieces_cons h, Ne, List.modifyHead_eq_nil_iff]
      exact ih _

/-! ### Texts without bars -/

/-- The brackets of a text match, and no bar stands outside of them. -/
def Whole (text : List Char) : Prop :=
  ∀ depth rest, pieces depth (text ++ rest) = (pieces depth rest).modifyHead (text ++ ·)

variable {text text' a b : List Char}

theorem whole_nil : Whole [] := by
  intro depth rest
  exact (congrFun List.modifyHead_id (pieces depth rest)).symm

theorem Whole.append (h : Whole text) (h' : Whole text') : Whole (text ++ text') := by
  intro depth rest
  rw [List.append_assoc, h, h', List.modifyHead_modifyHead]
  congr 1
  funext cs
  rw [Function.comp_apply, List.append_assoc]

theorem whole_singleton {c : Char} (h : c ≠ '<' ∧ c ≠ '>' ∧ c ≠ '|') : Whole [c] := by
  intro depth rest
  have hopen : openBehind depth c = depth := (if_neg h.1).trans (if_neg h.2.1)
  rw [List.singleton_append, pieces_cons fun hbar => h.2.2 hbar.1, hopen]
  rfl

theorem whole_of_not_mem (h : '<' ∉ text ∧ '>' ∉ text ∧ '|' ∉ text) : Whole text := by
  obtain ⟨hopening, hclosing, hbar⟩ := h
  induction text with
  | nil => exact whole_nil
  | cons c rest ih =>
    rw [List.mem_cons, not_or] at hopening hclosing hbar
    exact (whole_singleton ⟨Ne.symm hopening.1, Ne.symm hclosing.1, Ne.symm hbar.1⟩).append
      (ih hopening.2 hclosing.2 hbar.2)

/-- A whole text is one piece. -/
theorem Whole.pieces_eq (h : Whole text) : pieces 0 text = [text] := by
  have hpieces := h 0 []
  rwa [List.append_nil, pieces_nil, List.modifyHead_cons, List.append_nil] at hpieces

/-! ### Names -/

/-- A name with a space at either end. -/
def padded (name : List Char) : List Char := ' ' :: (name ++ [' '])

theorem padded_inj (h : padded a = padded b) : a = b :=
  List.append_cancel_right (List.cons.inj h).2

theorem padded_union : padded (a ++ (bar ++ b)) = padded a ++ '|' :: padded b := by
  simp [padded, bar_eq]

theorem Whole.padded (h : Whole a) : Whole (padded a) := by
  have hspace : Whole [' '] := whole_singleton (by decide)
  exact hspace.append (h.append hspace)

/-- The brackets of a name match: in brackets it is passed over, and outside of them it is cut by
itself, up to a bar behind it. -/
structure Balanced (name : List Char) : Prop where
  inside : ∀ depth rest,
    pieces (depth + 1) (name ++ rest) = (pieces (depth + 1) rest).modifyHead (name ++ ·)
  outside : ∀ rest, pieces 0 (padded name ++ '|' :: rest) = pieces 0 (padded name) ++ pieces 0 rest

theorem Whole.balanced (h : Whole a) : Balanced a where
  inside depth rest := h (depth + 1) rest
  outside rest := by
    rw [h.padded, h.padded.pieces_eq, pieces_bar, List.modifyHead_cons, List.append_nil]
    rfl

/-- A balanced name in brackets is whole. -/
theorem Balanced.brackets (h : Balanced a) : Whole ('<' :: (a ++ ['>'])) := by
  intro depth rest
  have hclose : pieces (depth + 1) ('>' :: rest) = (pieces depth rest).modifyHead ('>' :: ·) :=
    pieces_cons (by simp) rest
  have hopen : pieces depth ('<' :: (a ++ '>' :: rest)) =
      (pieces (depth + 1) (a ++ '>' :: rest)).modifyHead ('<' :: ·) :=
    pieces_cons (by simp) _
  rw [List.cons_append, List.append_assoc, List.singleton_append, hopen, h.inside, hclose,
    List.modifyHead_modifyHead, List.modifyHead_modifyHead]
  congr 1
  funext cs
  simp

/-- The name of a union of two is balanced. -/
theorem Balanced.union (ha : Balanced a) (hb : Balanced b) : Balanced (a ++ (bar ++ b)) where
  inside depth rest := by
    have hspace : Whole [' '] := whole_singleton (by decide)
    have hbar : pieces (depth + 1) (bar ++ (b ++ rest)) =
        (pieces (depth + 1) (b ++ rest)).modifyHead (bar ++ ·) := by
      have hmiddle : pieces (depth + 1) ('|' :: ([' '] ++ (b ++ rest))) =
          (pieces (depth + 1) ([' '] ++ (b ++ rest))).modifyHead ('|' :: ·) :=
        pieces_cons (by simp) _
      rw [show bar ++ (b ++ rest) = [' '] ++ '|' :: ([' '] ++ (b ++ rest)) from rfl, hspace,
        hmiddle, hspace, List.modifyHead_modifyHead, List.modifyHead_modifyHead]
      rfl
    rw [List.append_assoc, List.append_assoc, ha.inside, hbar, hb.inside,
      List.modifyHead_modifyHead, List.modifyHead_modifyHead]
    congr 1
    funext cs
    simp
  outside rest := by
    rw [padded_union, List.append_assoc, List.cons_append, ha.outside, hb.outside, ha.outside,
      List.append_assoc]

theorem Balanced.whole_array {item : String} (h : Balanced item.toList) :
    Whole (TypeLabel.array item).text.toList := by
  have hstart : Whole "Array".toList := whole_of_not_mem (by decide)
  have htext : (TypeLabel.array item).text.toList =
      "Array".toList ++ '<' :: (item.toList ++ ['>']) := by
    rw [TypeLabel.text_array, String.toList_append, String.toList_append, List.append_assoc]
    rfl
  rw [htext]
  exact hstart.append h.brackets

theorem Balanced.whole_nullable {inner : String} (h : Balanced inner.toList) :
    Whole (TypeLabel.nullable inner).text.toList := by
  have hstart : Whole "Nullable".toList := whole_of_not_mem (by decide)
  have htext : (TypeLabel.nullable inner).text.toList =
      "Nullable".toList ++ '<' :: (inner.toList ++ ['>']) := by
    rw [TypeLabel.text_nullable, String.toList_append, String.toList_append, List.append_assoc]
    rfl
  rw [htext]
  exact hstart.append h.brackets

/-! ### Names of unions -/

variable {names : List String}

theorem balanced_intercalate (h : ∀ name ∈ names, Balanced name.toList) :
    Balanced (" | ".intercalate names).toList := by
  induction names with
  | nil => exact whole_nil.balanced
  | cons name rest ih =>
    obtain ⟨hname, hrest⟩ := List.forall_mem_cons.mp h
    cases rest with
    | nil =>
      rw [String.intercalate_singleton]
      exact hname
    | cons next rest =>
      rw [toList_union_cons_cons]
      exact hname.union (ih hrest)

/-- The pieces of the name of a union are those of the names of its members. -/
theorem pieces_intercalate (hne : names ≠ []) (h : ∀ name ∈ names, Balanced name.toList) :
    pieces 0 (padded (" | ".intercalate names).toList) =
      names.flatMap fun name => pieces 0 (padded name.toList) := by
  induction names with
  | nil => exact absurd rfl hne
  | cons name rest ih =>
    obtain ⟨hname, hrest⟩ := List.forall_mem_cons.mp h
    cases rest with
    | nil => rw [String.intercalate_singleton, List.flatMap_cons, List.flatMap_nil, List.append_nil]
    | cons next rest =>
      rw [toList_union_cons_cons, padded_union, hname.outside, ih (List.cons_ne_nil _ _) hrest]
      rfl

/-- The name of a union of several members is not whole. -/
theorem not_whole_intercalate {name next : String} {rest : List String}
    (h : ∀ member ∈ name :: next :: rest, Balanced member.toList) :
    ¬ Whole (" | ".intercalate (name :: next :: rest)).toList := by
  intro hwhole
  have hpieces := pieces_intercalate (List.cons_ne_nil _ _) h
  rw [hwhole.padded.pieces_eq, List.flatMap_cons, List.flatMap_cons] at hpieces
  have hlength := congrArg List.length hpieces
  have hname := List.length_pos_iff.mpr (pieces_ne_nil 0 (padded name.toList))
  have hnext := List.length_pos_iff.mpr (pieces_ne_nil 0 (padded next.toList))
  rw [List.length_append, List.length_append, List.length_singleton] at hlength
  omega

end TypedTree
