/-
Paths into a tree, as chains of steps from its root.

A path is built at its far end, so all paths below one place share it, and every step
holds the number of steps up to it. Main definitions:

* `PathChain` — steps with the numbers they hold, which `PathChain.Counted` says are
  right;
* `Sharing` — what is known of chains that are one and the same in memory;
* `Path` — a chain whose numbers are right;
* `Path.keys` — the steps from the root on, which determine the path;
* `Path.equals`, `Path.startsWith` — comparison from the far end, with a path or with
  its beginning;
* `Path.root` — the one-step path at which a translation starts.
-/

namespace TypedTree

/-- One step: into a field of a record, or to an item of a list. -/
inductive PathKey where
  | field (name : String)
  | index (position : Nat)
deriving DecidableEq, Repr

/-- The name of a field, or the number of an item. -/
def PathKey.render : PathKey → String
  | field name => name
  | index position => toString position

/-! ### Chains -/

/-- A chain of steps, from the last one on. Every step holds a number of steps. -/
inductive PathChain where
  | empty
  | step (key : PathKey) (parent : PathChain) (depth : Nat)
deriving Repr

/-- What is known of chains that are one and the same in memory. It may miss that two
chains are one, but takes no two different ones for one. -/
structure Sharing where
  one : PathChain → PathChain → Bool
  eq_of_one : ∀ {chain other}, one chain other = true → chain = other

/-- Nothing is known. -/
def Sharing.unknown : Sharing where
  one _ _ := false
  eq_of_one h := by cases h

namespace PathChain

/-- The number that the last step holds. -/
def depth : PathChain → Nat
  | empty => 0
  | step _ _ depth => depth

/-- Every step holds the number of steps up to it. -/
def Counted : PathChain → Prop
  | empty => True
  | step _ parent depth => depth = parent.depth + 1 ∧ parent.Counted

/-- The chain with one more step. -/
def push (chain : PathChain) (key : PathKey) : PathChain := step key chain (chain.depth + 1)

theorem Counted.push {chain : PathChain} (h : chain.Counted) (key : PathKey) :
    (chain.push key).Counted := ⟨rfl, h⟩

/-- The steps from the root on. -/
def keys : PathChain → List PathKey
  | empty => []
  | step key parent _ => parent.keys ++ [key]

/-- Whether two chains have the same steps and numbers. The comparison goes from the last
step on and ends where the chains are known to be one. -/
def equals (sharing : Sharing) : PathChain → PathChain → Bool
  | empty, empty => true
  | step key parent depth, step key' parent' depth' =>
    sharing.one (step key parent depth) (step key' parent' depth') ||
      (depth = depth' && key = key' && equals sharing parent parent')
  | _, _ => false

/-- Whether a chain leads on from `start`: the steps behind as many as `start` has are
left away, and the rest is compared. -/
def startsWith (sharing : Sharing) (start : PathChain) : PathChain → Bool
  | empty => equals sharing empty start
  | step key parent depth =>
    if start.depth < depth then startsWith sharing start parent
    else equals sharing (step key parent depth) start

theorem equals_iff {sharing : Sharing} {chain other : PathChain} :
    chain.equals sharing other = true ↔ chain = other := by
  induction chain generalizing other with
  | empty => cases other <;> simp [equals]
  | step key parent depth ih =>
    cases other with
    | empty => simp [equals]
    | step key' parent' depth' =>
      rw [equals, Bool.or_eq_true, Bool.and_eq_true, Bool.and_eq_true, ih]
      constructor
      · rintro (hone | ⟨⟨hdepth, hkey⟩, rfl⟩)
        · exact sharing.eq_of_one hone
        · rw [of_decide_eq_true hdepth, of_decide_eq_true hkey]
      · rintro ⟨⟩
        exact .inr ⟨⟨decide_eq_true rfl, decide_eq_true rfl⟩, rfl⟩

end PathChain

/-! ### Paths -/

/-- A chain of steps, each with the number of steps up to it. -/
structure Path where
  chain : PathChain
  counted : chain.Counted
deriving Repr

namespace Path

/-- The path without steps. -/
def empty : Path := ⟨.empty, trivial⟩

/-- The path one step further. -/
def push (path : Path) (key : PathKey) : Path := ⟨path.chain.push key, path.counted.push key⟩

/-- The path one field further. -/
def field (path : Path) (name : String) : Path := path.push (.field name)

/-- The path one item further. -/
def index (path : Path) (position : Nat) : Path := path.push (.index position)

/-- The path at which a translation starts. -/
def root : Path := empty.field "root"

/-- Whether there is no step. -/
def isEmpty (path : Path) : Bool :=
  match path.chain with
  | .empty => true
  | .step _ _ _ => false

/-- The number of steps, as the last one holds it. -/
def depth (path : Path) : Nat := path.chain.depth

/-- The last step. -/
def key? (path : Path) : Option PathKey :=
  match path.chain with
  | .empty => none
  | .step key _ _ => some key

/-- The path without its last step. -/
def parent? : Path → Option Path
  | ⟨.empty, _⟩ => none
  | ⟨.step _ parent _, counted⟩ => some ⟨parent, counted.2⟩

/-- The steps from the root on. -/
def keys (path : Path) : List PathKey := path.chain.keys

/-- Whether two paths are the same, by what is known of their chains in memory. -/
def equals (path other : Path) (sharing : Sharing := .unknown) : Bool :=
  path.chain.equals sharing other.chain

/-- Whether `start` is this path or one of its ancestors. -/
def startsWith (path start : Path) (sharing : Sharing := .unknown) : Bool :=
  PathChain.startsWith sharing start.chain path.chain

theorem equals_iff {path other : Path} {sharing : Sharing} :
    path.equals other sharing = true ↔ path = other := by
  rw [equals, PathChain.equals_iff, Path.mk.injEq]

instance : DecidableEq Path := fun path other =>
  decidable_of_iff (path.equals other = true) equals_iff

/-- The steps with a dot between them. -/
def render (path : Path) : String := ".".intercalate (path.keys.map PathKey.render)

end Path

end TypedTree
