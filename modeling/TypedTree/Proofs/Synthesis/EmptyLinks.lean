/-
Links of chains that say nothing.

Main statements:

* `Descriptor.pruned` — a descriptor without the empty links of its chains;
* `Descriptor.EmptyIdle` — the empty links of a descriptor have no say in its type;
* `Synthesis.resolveItem_eq`, `Synthesis.resolveFirst_eq` — which link of a chain decides about its
  type;
* `Synthesis.resolve_pruned` — the type of a descriptor is made in the same way without its empty
  links, unless one stands where a chain over the items of an array looks;
* `Synthesis.typeName?_pruned_ne` — there it makes a difference, although every chain keeps a link.

Design notes: a chain is one over the items of an array by its first link, and the items are those
of its second link; any other chain is searched for a link that says something. So an empty link
behind the head of an array stands for the items, and one before it hides the head.
-/
import TypedTree.Proofs.Synthesis.Resolution
import TypedTree.Proofs.Synthesis.Types

namespace TypedTree

namespace Descriptor

/-! ### Descriptors without empty links -/

mutual

/-- The descriptor without the empty links of its chains, at any depth. -/
def pruned : Descriptor → Descriptor
  | chain links => chain (prunedLinks links)
  | each item => each item.pruned
  | other => other

/-- The links that say something, themselves without empty links. -/
def prunedLinks : List Descriptor → List Descriptor
  | [] => []
  | link :: rest => if link.isEmpty then prunedLinks rest else link.pruned :: prunedLinks rest

end

/-- The links that say something. -/
def telling (links : List Descriptor) : List Descriptor := links.filter fun d => !d.isEmpty

theorem firstLink?_eq (links : List Descriptor) : firstLink? links = (telling links).head? :=
  List.head?_filter.symm

theorem prunedLinks_eq (links : List Descriptor) :
    prunedLinks links = (telling links).map pruned := by
  induction links with
  | nil => rw [prunedLinks]; rfl
  | cons link rest ih =>
    rw [prunedLinks, telling]
    by_cases hlink : link.isEmpty = true
    · rw [if_pos hlink, List.filter_cons_of_neg (by simp [hlink]), ih, telling]
    · rw [if_neg hlink, List.filter_cons_of_pos (by simpa using hlink), ih, List.map_cons, telling]

theorem telling_cons {link : Descriptor} {rest : List Descriptor} (h : link.isEmpty = false) :
    telling (link :: rest) = link :: telling rest :=
  List.filter_cons_of_pos (by simp [h])

theorem isEmpty_of_mem_telling {d : Descriptor} {links : List Descriptor}
    (h : d ∈ telling links) : d.isEmpty = false := by
  simpa using (List.mem_filter.mp h).2

theorem isArrayKind_pruned (d : Descriptor) : d.pruned.isArrayKind = d.isArrayKind := by
  cases d <;> rfl

theorem isEmpty_pruned (d : Descriptor) : d.pruned.isEmpty = d.isEmpty := by
  cases d <;> rfl

theorem eq_kind_of_isArrayKind {d : Descriptor} (h : d.isArrayKind = true) : d = kind "array" := by
  cases d with
  | kind name => rw [eq_of_beq h]
  | nodeTypes | nodeOrValueTypes | oneOf | chain | each | shapeOf | empty | unrecognized => cases h

theorem isEmpty_of_isArrayKind {d : Descriptor} (h : d.isArrayKind = true) : d.isEmpty = false := by
  rw [eq_kind_of_isArrayKind h]
  rfl

/-- What is said about the items of an array is what the second link says, unless it is empty. -/
theorem itemOf?_prunedLinks {rest : List Descriptor}
    (h : ∀ d, rest.head? = some d → d.isEmpty = false) :
    itemOf? (prunedLinks rest) = (itemOf? rest).map pruned := by
  rw [prunedLinks_eq]
  cases rest with
  | nil => rfl
  | cons link rest =>
    rw [telling_cons (h link rfl), List.map_cons]
    cases link <;> rfl

/-- Every chain of a descriptor has links that say something. -/
def EachTells (d : Descriptor) : Prop := ∀ links, Within (chain links) d → telling links ≠ []

/-! ### Empty links without a say -/

/-- The empty links of a descriptor have no say in its type: on the way to the link that decides
about it, none stands right behind the head of an array, and none before such a head that further
links follow. -/
inductive EmptyIdle : Descriptor → Prop
  | array {head : Descriptor} {rest : List Descriptor} (array : head.isArrayKind = true)
      (second : ∀ d, rest.head? = some d → d.isEmpty = false)
      (item : ∀ d, itemOf? rest = some d → EmptyIdle d) : EmptyIdle (chain (head :: rest))
  | first {links : List Descriptor} (other : headIsArray links = false)
      (alone : ∀ d, firstLink? links = some d → d.isArrayKind = true → telling links = [d])
      (first : ∀ d, firstLink? links = some d → EmptyIdle d) : EmptyIdle (chain links)
  | other {d : Descriptor} (h : ∀ links, d ≠ chain links) : EmptyIdle d

end Descriptor

open Descriptor
open Grammar (ofTable forest)

namespace Synthesis

variable {g : Grammar}

/-! ### The link that decides -/

theorem resolveItem_eq (rest : List Descriptor) :
    resolveItem g rest =
      match itemOf? rest with
      | some d => resolve g d
      | none => Builder.primitive .any := by
  cases rest with
  | nil => rw [resolveItem]; rfl
  | cons link rest =>
    by_cases heach : ∃ item, link = .each item
    · obtain ⟨item, rfl⟩ := heach
      rw [resolveItem]
      rfl
    · have hother : ∀ item, link ≠ .each item := fun item h => heach ⟨item, h⟩
      rw [Grammar.resolveItem_cons hother, Grammar.itemOf?_cons hother]

theorem resolveFirst_eq (links : List Descriptor) :
    resolveFirst g links =
      match firstLink? links with
      | some d => resolve g d
      | none => throw (.unsupported "chain of empty validators") := by
  induction links with
  | nil => rw [resolveFirst]; rfl
  | cons link rest ih =>
    rw [resolveFirst]
    by_cases hlink : link.isEmpty = true
    · rw [if_pos hlink, ih, firstLink?, firstLink?, List.find?_cons_of_neg (by simp [hlink])]
    · rw [if_neg hlink, firstLink?, List.find?_cons_of_pos (by simpa using hlink)]

theorem resolve_array {head : Descriptor} {rest : List Descriptor}
    (h : head.isArrayKind = true) :
    resolve g (.chain (head :: rest)) = (do
      let item ← resolveItem g rest
      Builder.arrayOf item) := by
  rw [resolve, if_pos h]

theorem resolve_first {links : List Descriptor} (h : headIsArray links = false) :
    resolve g (.chain links) = resolveFirst g links := by
  cases links with
  | nil => rw [resolve, resolveFirst]
  | cons head rest => rw [resolve, if_neg (by simpa [headIsArray] using h)]

/-- Lists of anything. -/
theorem resolve_kind_array : resolve g (.kind "array") = (do
    let any ← Builder.primitive .any
    Builder.arrayOf any) := by
  rw [resolve]
  rfl

/-- Without empty links that have a say, the type of a descriptor is made in the same way. -/
theorem resolve_pruned_of_emptyIdle {d : Descriptor} (h : d.EmptyIdle) :
    resolve g d.pruned = resolve g d := by
  induction h with
  | @array head rest harray hsecond _ ih =>
    have htelling : telling (head :: rest) = head :: telling rest :=
      telling_cons (isEmpty_of_isArrayKind harray)
    rw [pruned, prunedLinks_eq, htelling, List.map_cons, ← prunedLinks_eq,
      resolve_array ((isArrayKind_pruned head).trans harray), resolve_array harray,
      resolveItem_eq, resolveItem_eq, itemOf?_prunedLinks hsecond]
    cases hitem : itemOf? rest with
    | none => rfl
    | some d =>
      rw [Option.map_some]
      dsimp only
      rw [ih d hitem]
  | @first links hother halone _ ih =>
    rw [pruned, prunedLinks_eq, resolve_first hother, resolveFirst_eq]
    rw [firstLink?_eq] at *
    cases htelling : telling links with
    | nil =>
      rw [List.map_nil, resolve]
      rfl
    | cons d after =>
      rw [htelling] at halone ih
      rw [List.map_cons, List.head?_cons]
      by_cases harray : d.isArrayKind = true
      · -- Nothing else is left beside the kind, which stands for lists of anything.
        rw [(List.cons.inj (halone d rfl harray)).2, List.map_nil,
          resolve_array ((isArrayKind_pruned d).trans harray), resolveItem_eq,
          eq_kind_of_isArrayKind harray]
        exact resolve_kind_array.symm
      · have hhead : headIsArray (d.pruned :: after.map pruned) = false := by
          rw [headIsArray, isArrayKind_pruned, Bool.eq_false_iff]
          exact harray
        have hd : d.isEmpty = false :=
          isEmpty_of_mem_telling (htelling ▸ List.mem_cons_self)
        rw [resolve_first hhead, resolveFirst, if_neg (by simp [isEmpty_pruned, hd]), ih d rfl]
  | @other d hother =>
    cases d with
    | chain links => exact absurd rfl (hother links)
    | each item => rw [pruned, resolve, resolve]
    | kind | nodeTypes | nodeOrValueTypes | oneOf | shapeOf | empty | unrecognized => rfl

/-- The empty links of chains can be left out where they have no say: the same type is made, with
the same changes of the schema, or the same failure is met. Where one stands right behind the head
of an array, it is taken for the items, and the chain has no type; where one stands before such a
head, the chain is a list of anything, whatever follows. -/
theorem resolve_pruned (g : Grammar) (d : Descriptor) :
    (d.EmptyIdle → resolve g d.pruned = resolve g d) ∧
    (∀ head rest, head.isArrayKind = true → d = .chain (head :: .empty :: rest) →
      resolve g d = throw (.unsupported "empty validator")) ∧
    (∀ links head, d = .chain links → headIsArray links = false → firstLink? links = some head →
      head.isArrayKind = true → resolve g d = resolve g (.kind "array")) := by
  refine ⟨resolve_pruned_of_emptyIdle, ?_, ?_⟩
  · rintro head rest harray rfl
    have hitem : itemOf? (.empty :: rest) = some .empty := rfl
    rw [resolve_array harray, resolveItem_eq, hitem]
    rfl
  · rintro links head rfl hother hfirst harray
    rw [resolve_first hother, resolveFirst_eq, hfirst, eq_kind_of_isArrayKind harray]

/-- An array of texts, with empty links at three depths. -/
def padded : Descriptor :=
  .chain [.empty, .chain [.kind "array", .each (.chain [.empty, .kind "string"]), .empty]]

theorem emptyIdle_padded : padded.EmptyIdle := by
  have hitem : EmptyIdle (.chain [.empty, .kind "string"]) := by
    refine .first rfl (fun d hd harray => ?_) fun d hd => ?_
    · cases hd
      cases harray
    · cases hd
      exact .other nofun
  have harray : EmptyIdle
      (.chain [.kind "array", .each (.chain [.empty, .kind "string"]), .empty]) := by
    refine .array rfl (fun d hd => ?_) fun d hd => ?_
    · cases hd
      rfl
    · cases hd
      exact hitem
  refine .first rfl (fun d hd h => ?_) fun d hd => ?_
  · cases hd
    cases h
  · cases hd
    exact harray

theorem resolve_pruned_padded : padded.EmptyIdle ∧
    padded.pruned = .chain [.chain [.kind "array", .each (.chain [.kind "string"])]] ∧
    resolve (ofTable forest) padded.pruned = resolve (ofTable forest) padded :=
  ⟨emptyIdle_padded, rfl, (resolve_pruned _ _).1 emptyIdle_padded⟩

/-- The name of the type that is made for a descriptor. -/
def typeName? (g : Grammar) (b : Builder) (d : Descriptor) : Option String :=
  match outcome (resolve g d) b with
  | (.ok id, b') => some (b'.name id)
  | (.error _, _) => none

/-- An array of texts with an empty link behind its head. -/
def gapped : Descriptor := .chain [.kind "array", .empty, .each (.kind "string")]

/-- An array of texts with an empty link before its head. -/
def indented : Descriptor := .chain [.empty, .kind "array", .each (.kind "string")]

/-- An empty link before or behind the head of an array makes a difference, although the chain has
links that say something. -/
theorem typeName?_pruned_ne :
    (EachTells gapped ∧ typeName? (ofTable forest) {} gapped = none ∧
      typeName? (ofTable forest) {} gapped.pruned = some "Array<string>") ∧
    (EachTells indented ∧
      typeName? (ofTable forest) {} indented = some "Array<any>" ∧
      typeName? (ofTable forest) {} indented.pruned = some "Array<string>") := by
  have hlink : ∀ links, ¬ Within (.chain links) (.kind "array") ∧
      ¬ Within (.chain links) .empty ∧ ¬ Within (.chain links) (.each (.kind "string")) :=
    fun links => ⟨nofun, nofun, nofun⟩
  have hgapped : EachTells gapped := by
    intro links h
    cases h with
    | refl => exact List.cons_ne_nil _ _
    | link hmem h => grind
  have hindented : EachTells indented := by
    intro links h
    cases h with
    | refl => exact List.cons_ne_nil _ _
    | link hmem h => grind
  exact ⟨⟨hgapped, by decide +kernel⟩, ⟨hindented, by decide +kernel⟩⟩

end Synthesis

end TypedTree
