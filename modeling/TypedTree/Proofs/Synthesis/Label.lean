/-
Names of structural types.

A structural type is known by a name that is put together from the names of its parts. The
parts can be read off the name again, if the names that the parts start from are chosen with
care. Main statements:

* `TypeLabel` — what the name of a structural type says;
* `PlainName` — a name that cannot be mistaken for part of a label;
* `TypeLabel.text_inj` — well-formed labels with the same text are the same.

Design notes: the members of a union are told apart by the first bar in the text. It is the
bar behind the first member as long as that member neither holds a bar nor ends in the
beginning of one: `A |` and `B` would make the same text as `A` and `| B`.
-/
import Mathlib.Data.List.Basic
import TypedTree.Schema.Basic

namespace TypedTree

/-- What the name of a structural type says: its form, and the names of its parts. -/
inductive TypeLabel where
  | primitive (kind : Primitive)
  | array (item : String)
  | nullable (inner : String)
  | union (members : List String)

/-- The name itself. -/
def TypeLabel.text : TypeLabel → String
  | primitive kind => kind.name
  | array item => "Array<" ++ item ++ ">"
  | nullable inner => "Nullable<" ++ inner ++ ">"
  | union members => " | ".intercalate members

theorem TypeLabel.text_array (item : String) : (array item).text = "Array<" ++ item ++ ">" := rfl

theorem TypeLabel.text_nullable (inner : String) :
    (nullable inner).text = "Nullable<" ++ inner ++ ">" := rfl

theorem TypeLabel.text_union (members : List String) :
    (union members).text = " | ".intercalate members := rfl

/-! ### Names in unions -/

/-- The characters between the members of a union. -/
def bar : List Char := [' ', '|', ' ']

theorem bar_eq : bar = [' ', '|', ' '] := rfl

/-- A name that neither holds a bar nor ends in the beginning of one. -/
structure Separable (name : List Char) : Prop where
  noBar : ∀ u v, name ≠ u ++ bar ++ v
  noStart : ∀ u, name ≠ u ++ [' ', '|']

theorem separable_of_not_mem {name : List Char} (h : ' ' ∉ name) : Separable name := by
  constructor
  · rintro u v rfl
    exact h (by simp [bar_eq])
  · rintro u rfl
    exact h (by simp)

theorem eq_nil_of_bar_append {x c r r' : List Char} (hx : Separable (x ++ c))
    (h : bar ++ r = c ++ (bar ++ r')) : c = [] := by
  match c, h with
  | [], _ => rfl
  | [_], h => simp [bar_eq] at h
  | [a, b], h =>
    simp only [bar_eq, List.cons_append, List.nil_append, List.cons.injEq] at h
    exact absurd (by rw [← h.1, ← h.2.1]) (hx.noStart x)
  | a :: b :: c :: cs, h =>
    simp only [bar_eq, List.cons_append, List.nil_append, List.cons.injEq] at h
    refine absurd ?_ (hx.noBar x cs)
    rw [← h.1, ← h.2.1, ← h.2.2.1]
    simp [bar_eq]

/-- The first bar stands behind the first member. -/
theorem append_bar_inj {x y r r' : List Char} (hx : Separable x) (hy : Separable y)
    (h : x ++ (bar ++ r) = y ++ (bar ++ r')) : x = y ∧ r = r' := by
  rcases List.append_eq_append_iff.mp h with ⟨c, rfl, hc⟩ | ⟨c, rfl, hc⟩
  · have hnil := eq_nil_of_bar_append hy hc
    subst hnil
    exact ⟨by simp, List.append_cancel_left hc⟩
  · have hnil := eq_nil_of_bar_append hx hc
    subst hnil
    exact ⟨by simp, (List.append_cancel_left hc).symm⟩

theorem toList_union_cons_cons (a b : String) (l : List String) :
    (" | ".intercalate (a :: b :: l)).toList =
      a.toList ++ (bar ++ (" | ".intercalate (b :: l)).toList) := by
  rw [String.intercalate_cons_cons, String.toList_append, String.toList_append,
    List.append_assoc]
  rfl

/-- Members can be read off the name of their union. -/
theorem union_text_inj {l m : List String} (hl : ∀ a ∈ l, Separable a.toList)
    (hm : ∀ a ∈ m, Separable a.toList) (hl' : l ≠ []) (hm' : m ≠ [])
    (h : " | ".intercalate l = " | ".intercalate m) : l = m := by
  -- The first bar stands behind the first member on both sides; the rest is a union again.
  induction l generalizing m with
  | nil => exact absurd rfl hl'
  | cons a l ih =>
    have ha := hl a List.mem_cons_self
    cases m with
    | nil => exact absurd rfl hm'
    | cons a' m =>
      have ha' := hm a' List.mem_cons_self
      cases l with
      | nil =>
        cases m with
        | nil => rw [String.intercalate_singleton, String.intercalate_singleton] at h; rw [h]
        | cons b' m =>
          rw [String.intercalate_singleton] at h
          have h := congrArg String.toList h
          rw [toList_union_cons_cons, ← List.append_assoc] at h
          exact absurd h (ha.noBar _ _)
      | cons b l =>
        cases m with
        | nil =>
          rw [String.intercalate_singleton] at h
          have h := congrArg String.toList h
          rw [toList_union_cons_cons, ← List.append_assoc] at h
          exact absurd h.symm (ha'.noBar _ _)
        | cons b' m =>
          have h := congrArg String.toList h
          rw [toList_union_cons_cons, toList_union_cons_cons] at h
          obtain ⟨heq, hrest⟩ := append_bar_inj ha ha' h
          have hrest := ih (fun c hc => hl c (List.mem_cons_of_mem _ hc))
            (fun c hc => hm c (List.mem_cons_of_mem _ hc)) (by simp) (by simp)
            (String.toList_injective hrest)
          rw [String.toList_injective heq, hrest]

/-! ### Names of grammars -/

/-- A name that is not that of a primitive, and cannot be mistaken for part of a label. -/
structure PlainName (name : String) : Prop where
  notPrimitive : ∀ kind : Primitive, name ≠ kind.name
  noOpening : '<' ∉ name.toList
  noClosing : '>' ∉ name.toList
  separable : Separable name.toList

/-- A name that may stand in a union. -/
def MemberName (name : String) : Prop :=
  PlainName name ∨ (∃ kind : Primitive, name = kind.name) ∨ name = "Array<any>"

theorem not_mem_name_toList (kind : Primitive) :
    '<' ∉ kind.name.toList ∧ '>' ∉ kind.name.toList ∧ ' ' ∉ kind.name.toList := by
  cases kind <;> decide

theorem name_inj {kind kind' : Primitive} (h : kind.name = kind'.name) : kind = kind' := by
  revert h
  cases kind <;> cases kind' <;> decide

theorem MemberName.separable {name : String} (h : MemberName name) : Separable name.toList := by
  rcases h with h | ⟨kind, rfl⟩ | rfl
  · exact h.separable
  · exact separable_of_not_mem (not_mem_name_toList kind).2.2
  · exact separable_of_not_mem (by decide)

/-- Only the type of any lists has brackets among the members of unions. -/
theorem MemberName.brackets {name : String} (h : MemberName name) (hne : name ≠ "Array<any>") :
    '<' ∉ name.toList ∧ '>' ∉ name.toList := by
  rcases h with h | ⟨kind, rfl⟩ | rfl
  · exact ⟨h.noOpening, h.noClosing⟩
  · exact ⟨(not_mem_name_toList kind).1, (not_mem_name_toList kind).2.1⟩
  · exact absurd rfl hne

namespace TypeLabel

/-- A union has at least two members, all different and of names that may stand there. -/
def WellFormed : TypeLabel → Prop
  | union members => 2 ≤ members.length ∧ members.Nodup ∧ ∀ name ∈ members, MemberName name
  | primitive _ | array _ | nullable _ => True

theorem exists_cons_cons {members : List String} (h : (union members).WellFormed) :
    ∃ a b l, members = a :: b :: l := by
  obtain ⟨hlen, -⟩ := h
  match members, hlen with
  | a :: b :: l, _ => exact ⟨a, b, l, rfl⟩

theorem mem_space_of_union {members : List String} (h : (union members).WellFormed) :
    ' ' ∈ (union members).text.toList := by
  obtain ⟨a, b, l, rfl⟩ := exists_cons_cons h
  rw [text_union, toList_union_cons_cons]
  simp [bar_eq]

/-- The name of a union ends in its last member, or in a bar. -/
theorem getLast?_union (a b : String) (l : List String) :
    (" | ".intercalate (a :: b :: l)).toList.getLast? = some ' ' ∨
      ∃ c ∈ b :: l, (" | ".intercalate (a :: b :: l)).toList.getLast? = c.toList.getLast? := by
  -- Only the last member counts, so the first one may go.
  induction l generalizing a b with
  | nil =>
    rw [toList_union_cons_cons, String.intercalate_singleton]
    by_cases hb : b.toList = []
    · rw [hb]
      simp [bar_eq, List.getLast?_append]
    · refine .inr ⟨b, List.mem_cons_self, ?_⟩
      rw [List.getLast?_append_of_ne_nil _ (by simp [bar_eq]), List.getLast?_append_of_ne_nil _ hb]
  | cons c l ih =>
    have hlast : (" | ".intercalate (a :: b :: c :: l)).toList.getLast? =
        (" | ".intercalate (b :: c :: l)).toList.getLast? := by
      rw [toList_union_cons_cons, List.getLast?_append_of_ne_nil _ (by simp [bar_eq]),
        List.getLast?_append_of_ne_nil _ (by rw [toList_union_cons_cons]; simp [bar_eq])]
    rw [hlast]
    rcases ih b c with h | ⟨d, hd, h⟩
    · exact .inl h
    · exact .inr ⟨d, List.mem_cons_of_mem _ hd, h⟩

/-- A union whose first member has no bracket has a space before any opening one. -/
theorem mem_takeWhile_of_union {a b : String} {l : List String} (ha : '<' ∉ a.toList) :
    ' ' ∈ (" | ".intercalate (a :: b :: l)).toList.takeWhile (· ≠ '<') := by
  rw [toList_union_cons_cons, List.takeWhile_append_of_pos]
  · simp [bar_eq]
  · intro c hc
    simp only [ne_eq, decide_not, Bool.not_eq_eq_eq_not, Bool.not_true, decide_eq_false_iff_not]
    rintro rfl
    exact ha hc

theorem takeWhile_array (item : String) :
    ("Array<" ++ item ++ ">").toList.takeWhile (· ≠ '<') = "Array".toList := by
  rw [String.toList_append, String.toList_append]
  rfl

theorem takeWhile_nullable (inner : String) :
    ("Nullable<" ++ inner ++ ">").toList.takeWhile (· ≠ '<') = "Nullable".toList := by
  rw [String.toList_append, String.toList_append]
  rfl

theorem array_text_ne_union {item : String} {members : List String}
    (h : (union members).WellFormed) : (array item).text ≠ (union members).text := by
  obtain ⟨a, b, l, rfl⟩ := exists_cons_cons h
  obtain ⟨-, hnodup, hmembers⟩ := h
  intro heq
  by_cases ha : a = "Array<any>"
  · -- the last member is another one, and does not end in a bracket
    have hend : (array item).text.toList.getLast? = some '>' := by
      rw [text_array, String.toList_append]
      exact List.getLast?_append_of_ne_nil _ (by simp)
    rw [heq, text_union] at hend
    rcases getLast?_union a b l with hlast | ⟨c, hc, hlast⟩
    · rw [hend] at hlast
      exact absurd hlast (by decide)
    · rw [hend] at hlast
      have hne : c ≠ "Array<any>" := by
        rintro rfl
        exact (List.nodup_cons.mp hnodup).1 (ha ▸ hc)
      refine ((hmembers c (List.mem_cons_of_mem _ hc)).brackets hne).2 ?_
      exact List.mem_of_getLast? hlast.symm
  · have hmem := mem_takeWhile_of_union (b := b) (l := l)
      ((hmembers a List.mem_cons_self).brackets ha).1
    rw [← text_union, ← heq, text_array, takeWhile_array] at hmem
    exact absurd hmem (by decide)

theorem nullable_text_ne_union {inner : String} {members : List String}
    (h : (union members).WellFormed) : (nullable inner).text ≠ (union members).text := by
  obtain ⟨a, b, l, rfl⟩ := exists_cons_cons h
  obtain ⟨-, hnodup, hmembers⟩ := h
  intro heq
  by_cases ha : a = "Array<any>"
  · have hhead := congrArg (fun s => s.toList.head?) heq
    simp only [text_nullable, text_union, String.toList_append] at hhead
    rw [toList_union_cons_cons, ha] at hhead
    exact absurd hhead (by simp)
  · have hmem := mem_takeWhile_of_union (b := b) (l := l)
      ((hmembers a List.mem_cons_self).brackets ha).1
    rw [← text_union, ← heq, text_nullable, takeWhile_nullable] at hmem
    exact absurd hmem (by decide)

theorem mem_opening_of_array (item : String) : '<' ∈ (array item).text.toList := by
  rw [text_array, String.toList_append, String.toList_append]
  simp

theorem mem_opening_of_nullable (inner : String) : '<' ∈ (nullable inner).text.toList := by
  rw [text_nullable, String.toList_append, String.toList_append]
  simp

/-- What stands in the brackets of a label can be read off. -/
theorem bracketed_inj {start x y : String} (h : start ++ x ++ ">" = start ++ y ++ ">") : x = y := by
  have hchars := congrArg String.toList h
  simp only [String.toList_append] at hchars
  exact String.toList_injective (List.append_cancel_left (List.append_cancel_right hchars))

theorem array_text_ne_nullable (item inner : String) :
    (array item).text ≠ (nullable inner).text := by
  intro heq
  have hhead := congrArg (fun s => s.toList.head?) heq
  simp only [text_array, text_nullable, String.toList_append] at hhead
  exact absurd hhead (by simp)

/-- Well-formed labels with the same text are the same. -/
theorem text_inj {label label' : TypeLabel} (h : label.WellFormed) (h' : label'.WellFormed)
    (heq : label.text = label'.text) : label = label' := by
  have hprimitive : ∀ {kind : Primitive} {l : TypeLabel}, l.WellFormed →
      kind.name = l.text → primitive kind = l := by
    intro kind l hl hkind
    obtain ⟨hopen, -, hspace⟩ := not_mem_name_toList kind
    cases l with
    | primitive kind' => rw [name_inj hkind]
    | array item => exact absurd (hkind ▸ mem_opening_of_array item) hopen
    | nullable inner => exact absurd (hkind ▸ mem_opening_of_nullable inner) hopen
    | union members => exact absurd (hkind ▸ mem_space_of_union hl) hspace
  -- Form by form: a primitive has neither bracket nor space, a union has a space before any
  -- bracket, and the two forms with brackets begin differently.
  cases label with
  | primitive kind => exact hprimitive h' heq
  | array item =>
    cases label' with
    | primitive kind => exact (hprimitive h heq.symm).symm
    | array item' => rw [bracketed_inj heq]
    | nullable inner => exact absurd heq (array_text_ne_nullable _ _)
    | union members => exact absurd heq (array_text_ne_union h')
  | nullable inner =>
    cases label' with
    | primitive kind => exact (hprimitive h heq.symm).symm
    | array item => exact absurd heq.symm (array_text_ne_nullable _ _)
    | nullable inner' => rw [bracketed_inj heq]
    | union members => exact absurd heq (nullable_text_ne_union h')
  | union members =>
    cases label' with
    | primitive kind => exact (hprimitive h heq.symm).symm
    | array item => exact absurd heq.symm (array_text_ne_union h)
    | nullable inner => exact absurd heq.symm (nullable_text_ne_union h)
    | union members' =>
      have hne : ∀ {l : List String}, (union l).WellFormed → l ≠ [] := by
        rintro l ⟨hlen, -⟩ rfl
        simp at hlen
      rw [union_text_inj (fun a ha => (h.2.2 a ha).separable)
        (fun a ha => (h'.2.2 a ha).separable) (hne h) (hne h') heq]

/-- No plain name is that of a structural type. -/
theorem text_ne_of_plainName {label : TypeLabel} (h : label.WellFormed) {name : String}
    (hname : PlainName name) : label.text ≠ name := by
  rintro rfl
  cases label with
  | primitive kind => exact hname.notPrimitive kind rfl
  | array item => exact hname.noOpening (mem_opening_of_array item)
  | nullable inner => exact hname.noOpening (mem_opening_of_nullable inner)
  | union members =>
    obtain ⟨a, b, l, rfl⟩ := exists_cons_cons h
    refine hname.separable.noBar a.toList (" | ".intercalate (b :: l)).toList ?_
    rw [text_union, toList_union_cons_cons, List.append_assoc]

end TypeLabel

end TypedTree
