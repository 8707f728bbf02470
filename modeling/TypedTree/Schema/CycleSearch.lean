/-
The search for a type that leads to itself.

Types are visited depth first, with an explicit stack and a mark on every type. Main statements:

* `CycleSearch.run` — the search goes on until the stack is empty, or comes to a type that is on it;
* `CycleSearch.wellFounded_advances` — it comes to an end, since every step takes one of a number
  of steps to come;
* `CycleSearch.search` — a search from every type of a list;
* `CycleSearch.search_eq_topological` — it finds what the search by recursion finds;
* `CycleSearch.of_search_eq_ok` — without a cycle, every type is done in the end.

A type that is not on the list has no mark, and is passed over like one that is done.
-/
import TypedTree.Graph.Topological
import TypedTree.TypeId

namespace TypedTree

namespace CycleSearch

/-- How far the search has come with a type. -/
inductive Mark where
  | new
  /-- On the stack. -/
  | active
  | done
deriving DecidableEq, Repr

/-- A type on the stack, and the place of the successor to be looked at next. -/
structure Frame where
  type : TypeId
  next : Nat
deriving DecidableEq, Repr

end CycleSearch

/-- A search at some moment. -/
structure CycleSearch where
  /-- The marks of the types, by handle. -/
  marks : List CycleSearch.Mark
  /-- The types that led to the one at hand, the latest first. -/
  stack : List CycleSearch.Frame
  /-- The types that are done, in the order in which they were. -/
  order : List TypeId
deriving DecidableEq, Repr

namespace CycleSearch

variable {next : TypeId → List TypeId}

/-! ### The search -/

/-- One step. The next successor of the type at hand is visited if it is new, and closes a cycle if
it is on the stack. Without a further successor the type is done. -/
def step (next : TypeId → List TypeId) (s : CycleSearch) (top : Frame) (below : List Frame) :
    Except TypeId CycleSearch :=
  match (next top.type)[top.next]? with
  | none => .ok ⟨s.marks.set top.type.index .done, below, s.order ++ [top.type]⟩
  | some child =>
    let stack := ⟨top.type, top.next + 1⟩ :: below
    match s.marks[child.index]? with
    | some .active => .error child
    | some .new => .ok ⟨s.marks.set child.index .active, ⟨child, 0⟩ :: stack, s.order⟩
    | some .done | none => .ok ⟨s.marks, stack, s.order⟩

/-- The steps that new types will take, where the first mark is that of a given place. -/
def stepsAhead (next : TypeId → List TypeId) : Nat → List Mark → Nat
  | _, [] => 0
  | i, mark :: marks =>
    (if mark = .new then (next ⟨i⟩).length + 2 else 0) + stepsAhead next (i + 1) marks

/-- The steps that the types on a stack will take. -/
def stackSteps (next : TypeId → List TypeId) : List Frame → Nat
  | [] => 0
  | top :: below => (next top.type).length - top.next + 1 + stackSteps next below

/-- A bound on the steps to come. -/
def stepsLeft (next : TypeId → List TypeId) (s : CycleSearch) : Nat :=
  stepsAhead next 0 s.marks + stackSteps next s.stack

variable (next : TypeId → List TypeId) {mark : Mark} {marks : List Mark}

theorem stepsAhead_set_le (hmark : mark ≠ .new) (start i : Nat) :
    stepsAhead next start (marks.set i mark) ≤ stepsAhead next start marks := by
  induction marks generalizing start i with
  | nil => exact Nat.le_refl _
  | cons m marks ih =>
    cases i with
    | zero =>
      rw [List.set_cons_zero, stepsAhead, stepsAhead, if_neg hmark, Nat.zero_add]
      exact Nat.le_add_left _ _
    | succ i =>
      rw [List.set_cons_succ, stepsAhead, stepsAhead]
      exact Nat.add_le_add_left (ih _ _) _

/-- A type that is visited takes its steps away from those of the new types. -/
theorem stepsAhead_set_of_new (hmark : mark ≠ .new) (start : Nat) {i : Nat}
    (h : marks[i]? = some .new) :
    stepsAhead next start (marks.set i mark) + ((next ⟨start + i⟩).length + 2) =
      stepsAhead next start marks := by
  induction marks generalizing start i with
  | nil => cases h
  | cons m marks ih =>
    cases i with
    | zero =>
      obtain rfl := Option.some.inj h
      rw [List.set_cons_zero, stepsAhead, stepsAhead, if_neg hmark, if_pos rfl, Nat.zero_add,
        Nat.add_comm]
      rfl
    | succ i =>
      have hrest := ih (start + 1) h
      rw [Nat.add_assoc, Nat.add_comm 1 i] at hrest
      rw [List.set_cons_succ, stepsAhead, stepsAhead, ← hrest, Nat.add_assoc]

variable {next}

/-- Every step takes one of the steps to come. -/
theorem stepsLeft_step_lt {s s' : CycleSearch} {top : Frame} {below : List Frame}
    (hstack : s.stack = top :: below) (h : step next s top below = .ok s') :
    s'.stepsLeft next < s.stepsLeft next := by
  rw [stepsLeft, stepsLeft, hstack, stackSteps]
  rw [step] at h
  split at h
  · cases h
    have hdone : stepsAhead next 0 (s.marks.set top.type.index .done) ≤ stepsAhead next 0 s.marks :=
      stepsAhead_set_le next (by decide) 0 _
    dsimp only
    omega
  · next child hchild =>
    obtain ⟨hlt, -⟩ := List.getElem?_eq_some_iff.mp hchild
    dsimp only at h
    split at h
    · cases h
    · next hnew =>
      cases h
      have hactive : stepsAhead next 0 (s.marks.set child.index .active) +
          ((next child).length + 2) = stepsAhead next 0 s.marks := by
        have hset := @stepsAhead_set_of_new next .active _ (by decide) 0 _ hnew
        rwa [Nat.zero_add] at hset
      simp only [stackSteps]
      omega
    · cases h
      simp only [stackSteps]
      omega
    · cases h
      simp only [stackSteps]
      omega

/-- One step leads from a search to a later one. -/
def Advances (next : TypeId → List TypeId) (s' s : CycleSearch) : Prop :=
  ∃ top below, s.stack = top :: below ∧ step next s top below = .ok s'

/-- No search goes on for ever. -/
theorem wellFounded_advances (next : TypeId → List TypeId) : WellFounded (Advances next) := by
  refine Subrelation.wf ?_ (measure (stepsLeft next)).wf
  rintro s' s ⟨top, below, hstack, hstep⟩
  exact stepsLeft_step_lt hstack hstep

/-- Goes on until the stack is empty, or a type on it is met again. -/
def run (next : TypeId → List TypeId) (s : CycleSearch) : Except TypeId CycleSearch :=
  match _ : s.stack with
  | [] => .ok s
  | top :: below =>
    match _ : step next s top below with
    | .ok s' => run next s'
    | .error child => .error child
termination_by s.stepsLeft next
decreasing_by exact stepsLeft_step_lt ‹_› ‹_›

/-- Starts from a type, unless it was visited. -/
def visit (next : TypeId → List TypeId) (s : CycleSearch) (root : TypeId) :
    Except TypeId CycleSearch :=
  match s.marks[root.index]? with
  | some .new => run next ⟨s.marks.set root.index .active, [⟨root, 0⟩], s.order⟩
  | _ => .ok s

/-- A search from every one of so many types, or a type that leads to itself. -/
def search (next : TypeId → List TypeId) (count : Nat) : Except TypeId CycleSearch :=
  ((List.range count).map TypeId.mk).foldlM (visit next) ⟨List.replicate count .new, [], []⟩

theorem run_of_nil {s : CycleSearch} (h : s.stack = []) : run next s = .ok s := by
  rw [run]
  split
  · rfl
  · next hstack => cases h.symm.trans hstack

theorem run_of_cons {s : CycleSearch} {top : Frame} {below : List Frame}
    (h : s.stack = top :: below) : run next s = step next s top below >>= run next := by
  rw [run]
  split
  · next hstack => cases h.symm.trans hstack
  · next top' below' hstack =>
    cases h.symm.trans hstack
    split
    · next s' hstep => rw [hstep]; rfl
    · next child hstep => rw [hstep]; rfl

/-! ### The search by recursion -/

variable {count : Nat} {order path : List TypeId} {below : List Frame} {id : TypeId}

/-- The successors that are among so many types. -/
def inside (next : TypeId → List TypeId) (count : Nat) (id : TypeId) : List TypeId :=
  (next id).filter (·.index < count)

/-- The mark of a type when some types are done and others on the stack. -/
def markOf (order path : List TypeId) (id : TypeId) : Mark :=
  if id ∈ order then .done else if id ∈ path then .active else .new

/-- The search at such a moment. -/
def moment (count : Nat) (order : List TypeId) (stack : List Frame) : CycleSearch :=
  ⟨(List.range count).map fun i => markOf order (stack.map (·.type)) ⟨i⟩, stack, order⟩

theorem getElem?_marks_of_lt (h : id.index < count) {f : TypeId → Mark} :
    ((List.range count).map fun i => f ⟨i⟩)[id.index]? = some (f id) := by
  rw [List.getElem?_map, List.getElem?_range h]
  rfl

theorem getElem?_marks_of_ge (h : ¬ id.index < count) {f : TypeId → Mark} :
    ((List.range count).map fun i => f ⟨i⟩)[id.index]? = none := by
  rw [List.getElem?_eq_none]
  simpa using h

/-- To set the mark of a type leaves the other marks as they are. -/
theorem set_marks (count : Nat) (id : TypeId) {f g : TypeId → Mark}
    (hother : ∀ other, other ≠ id → g other = f other) :
    ((List.range count).map fun i => f ⟨i⟩).set id.index (g id) =
      (List.range count).map fun i => g ⟨i⟩ := by
  refine List.ext_getElem? fun i => ?_
  rw [List.getElem?_set, List.getElem?_map, List.getElem?_map, List.length_map, List.length_range]
  by_cases hi : i < count
  · rw [List.getElem?_range hi]
    split
    · next heq => rw [if_pos (heq ▸ hi), ← heq]; rfl
    · next hne => rw [Option.map_some, Option.map_some, hother ⟨i⟩ fun heq => hne (heq ▸ rfl)]
  · rw [List.getElem?_eq_none (by simpa using hi)]
    split
    · next heq => rw [if_neg (heq ▸ hi)]; rfl
    · rfl

/-- A new type goes on the stack. -/
theorem moment_push (h : id ∉ order) {stack : List Frame} :
    ⟨(moment count order stack).marks.set id.index .active, ⟨id, 0⟩ :: stack, order⟩ =
      moment count order (⟨id, 0⟩ :: stack) := by
  have hmark : markOf order (id :: stack.map (·.type)) id = .active := by
    rw [markOf, if_neg h, if_pos List.mem_cons_self]
  have hmarks := set_marks count id (f := markOf order (stack.map (·.type)))
    (g := markOf order (id :: stack.map (·.type))) fun other hne => by
      simp only [markOf, List.mem_cons, hne, false_or]
  rw [hmark] at hmarks
  rw [moment, moment, hmarks]
  rfl

/-- The type at hand is done. -/
theorem moment_done {place : Nat} :
    ⟨(moment count order (⟨id, place⟩ :: below)).marks.set id.index .done, below, order ++ [id]⟩ =
      moment count (order ++ [id]) below := by
  have hmark : markOf (order ++ [id]) (below.map (·.type)) id = .done := by
    rw [markOf, if_pos (by simp)]
  have hmarks := set_marks count id (f := markOf order (id :: below.map (·.type)))
    (g := markOf (order ++ [id]) (below.map (·.type))) fun other hne => by
      simp only [markOf, List.mem_cons, List.mem_append, List.not_mem_nil, or_false, hne, false_or]
  rw [hmark] at hmarks
  rw [moment, moment, ← hmarks]
  rfl

theorem step_of_end {place : Nat} (h : (next id)[place]? = none) :
    step next (moment count order (⟨id, place⟩ :: below)) ⟨id, place⟩ below =
      .ok (moment count (order ++ [id]) below) := by
  rw [step, h, ← moment_done]
  rfl

/-- A successor closes a cycle, goes on the stack, or is passed over. -/
theorem step_of_child {place : Nat} {child : TypeId} (h : (next id)[place]? = some child) :
    step next (moment count order (⟨id, place⟩ :: below)) ⟨id, place⟩ below =
      if child.index < count ∧ child ∉ order then
        if child ∈ id :: below.map (·.type) then .error child
        else .ok (moment count order (⟨child, 0⟩ :: ⟨id, place + 1⟩ :: below))
      else .ok (moment count order (⟨id, place + 1⟩ :: below)) := by
  rw [step, h]
  dsimp only
  by_cases hin : child.index < count
  · have hmark : (moment count order (⟨id, place⟩ :: below)).marks[child.index]? =
        some (markOf order (id :: below.map (·.type)) child) := getElem?_marks_of_lt hin
    rw [hmark]
    by_cases hdone : child ∈ order
    · rw [markOf, if_pos hdone, if_neg fun hnew => hnew.2 hdone]
      rfl
    · rw [markOf, if_neg hdone]
      by_cases hactive : child ∈ id :: below.map (·.type)
      · rw [if_pos hactive, if_pos (And.intro hin hdone), if_pos hactive]
      · rw [if_neg hactive, if_pos (And.intro hin hdone), if_neg hactive, ← moment_push hdone]
        rfl
  · have hmark : (moment count order (⟨id, place⟩ :: below)).marks[child.index]? = none :=
      getElem?_marks_of_ge hin
    rw [hmark, if_neg fun hnew => hin hnew.1]
    rfl

/-- What comes after a search by recursion, or the type that closes the cycle it found. -/
def followed (found : Except (List TypeId) (List TypeId))
    (rest : List TypeId → Except TypeId CycleSearch) : Except TypeId CycleSearch :=
  match found with
  | .ok order => rest order
  | .error cycle => .error (cycle.getLast?.getD ⟨0⟩)

theorem followed_bind (found : Except (List TypeId) (List TypeId))
    (f : List TypeId → Except (List TypeId) (List TypeId))
    (rest : List TypeId → Except TypeId CycleSearch) :
    followed (found >>= f) rest = followed found fun order => followed (f order) rest := by
  cases found <;> rfl

theorem length_le_of_inRange (hnodup : path.Nodup) (hrange : ∀ id ∈ path, id.index < count) :
    path.length ≤ count := by
  have hsub : path ⊆ (List.range count).map TypeId.mk := fun id hid =>
    List.mem_map.mpr ⟨id.index, List.mem_range.mpr (hrange id hid), rfl⟩
  simpa using hnodup.length_le_of_subset hsub

/-- From the next successor of the type at hand on, the search does what the recursion does for the
successors that are left. The unfinished types of the recursion are those on the stack. -/
theorem run_moment (depth : Nat) {place : Nat} (hnodup : (id :: below.map (·.type)).Nodup)
    (hrange : ∀ other ∈ id :: below.map (·.type), other.index < count)
    (hdepth : count < depth + (below.length + 1)) :
    run next (moment count order (⟨id, place⟩ :: below)) =
      followed ((((next id).drop place).filter (·.index < count)).foldlM
          (Graph.finishVertex (inside next count) depth (id :: below.map (·.type))) order)
        fun order => run next (moment count (order ++ [id]) below) := by
  induction depth generalizing order id place below with
  | zero =>
    have hlength := length_le_of_inRange hnodup hrange
    rw [List.length_cons, List.length_map] at hlength
    omega
  | succ depth ih =>
    generalize hleft : (next id).drop place = left
    induction left generalizing place order with
    | nil =>
      have hnone : (next id)[place]? = none :=
        List.getElem?_eq_none (List.drop_eq_nil_iff.mp hleft)
      rw [run_of_cons rfl, step_of_end hnone]
      rfl
    | cons child rest ihrest =>
      have hchild : (next id)[place]? = some child := by
        rw [← List.head?_drop, hleft, List.head?_cons]
      have hrest : (next id).drop (place + 1) = rest := by
        rw [← List.tail_drop, hleft, List.tail_cons]
      rw [run_of_cons rfl, step_of_child hchild]
      by_cases hin : child.index < count
      · rw [List.filter_cons_of_pos (by simpa using hin), List.foldlM_cons, followed_bind,
          Graph.finishVertex]
        by_cases hdone : child ∈ order
        · rw [if_neg fun hnew => hnew.2 hdone, if_pos hdone]
          exact ihrest hrest
        rw [if_pos ⟨hin, hdone⟩, if_neg hdone]
        by_cases hactive : child ∈ id :: below.map (·.type)
        · rw [if_pos hactive, if_pos hactive, followed, List.getLast?_concat]
          rfl
        · -- The recursion goes down where the search puts a type on the stack.
          let stack : List Frame := ⟨id, place + 1⟩ :: below
          have hnodup' : (child :: stack.map (·.type)).Nodup :=
            List.nodup_cons.mpr ⟨hactive, hnodup⟩
          have hrange' : ∀ other ∈ child :: stack.map (·.type), other.index < count :=
            List.forall_mem_cons.mpr ⟨hin, hrange⟩
          have hdepth' : count < depth + (stack.length + 1) := by
            rw [List.length_cons]
            omega
          rw [if_neg hactive, if_neg hactive, followed_bind]
          refine (ih hnodup' hrange' hdepth').trans (congrArg (followed _) ?_)
          exact funext fun order' => ihrest hrest
      · rw [List.filter_cons_of_neg (by simpa using hin), if_neg fun hnew => hin hnew.1]
        exact ihrest hrest

/-- From a type on, the search does what the recursion does. -/
theorem visit_moment {root : TypeId} (hroot : root.index < count) :
    visit next (moment count order []) root =
      followed (Graph.finishVertex (inside next count) (count + 1) [] order root)
        fun order => .ok (moment count order []) := by
  have hmark : (moment count order []).marks[root.index]? = some (markOf order [] root) :=
    getElem?_marks_of_lt hroot
  rw [visit, hmark, Graph.finishVertex, markOf]
  by_cases hdone : root ∈ order
  · rw [if_pos hdone, if_pos hdone]
    rfl
  · have hpush : (⟨(moment count order []).marks.set root.index .active, [⟨root, 0⟩],
        (moment count order []).order⟩ : CycleSearch) = moment count order [⟨root, 0⟩] :=
      moment_push hdone
    have hnodup : (root :: ([] : List Frame).map (·.type)).Nodup := by simp
    have hrange : ∀ other ∈ root :: ([] : List Frame).map (·.type), other.index < count := by
      simpa using hroot
    rw [if_neg hdone, if_neg hdone, if_neg List.not_mem_nil, if_neg List.not_mem_nil,
      followed_bind]
    dsimp only
    rw [hpush, run_moment count hnodup hrange (Nat.lt_succ_self count)]
    exact congrArg (followed _) (funext fun order' => run_of_nil rfl)

/-- The search finds what the recursion finds. -/
theorem search_eq_topological (next : TypeId → List TypeId) (count : Nat) :
    search next count =
      followed (Graph.topological (inside next count) ((List.range count).map TypeId.mk))
        fun order => .ok (moment count order []) := by
  have hfold : ∀ (roots order : List TypeId), (∀ root ∈ roots, root.index < count) →
      roots.foldlM (visit next) (moment count order []) =
        followed (roots.foldlM (Graph.finishVertex (inside next count) (count + 1) []) order)
          fun order => .ok (moment count order []) := by
    intro roots
    induction roots with
    | nil => exact fun _ _ => rfl
    | cons root roots ih =>
      intro order hroots
      obtain ⟨hroot, hroots⟩ := List.forall_mem_cons.mp hroots
      rw [List.foldlM_cons, List.foldlM_cons, followed_bind, visit_moment hroot]
      cases Graph.finishVertex (inside next count) (count + 1) [] order root with
      | error cycle => rfl
      | ok order' => exact ih order' hroots
  have hstart : (⟨List.replicate count .new, [], []⟩ : CycleSearch) = moment count [] [] := by
    have hnew : ∀ id, markOf [] [] id = .new := fun _ => rfl
    rw [moment]
    simp only [List.map_nil, hnew, List.map_const', List.length_range]
  rw [search, hstart, hfold _ _ (by simp), Graph.topological, List.length_map, List.length_range]

/-- A search that finds no cycle has emptied its stack and is done with every type. -/
theorem of_search_eq_ok {s : CycleSearch} (h : search next count = .ok s) :
    s.stack = [] ∧ s.marks = List.replicate count .done := by
  rw [search_eq_topological] at h
  cases horder : Graph.topological (inside next count) ((List.range count).map TypeId.mk) with
  | error cycle =>
    rw [horder] at h
    cases h
  | ok order =>
    rw [horder] at h
    obtain rfl := Except.ok.inj h
    refine ⟨rfl, List.eq_replicate_iff.mpr ⟨by simp [moment], fun mark hmark => ?_⟩⟩
    obtain ⟨i, hi, rfl⟩ := List.mem_map.mp hmark
    have hdone : ⟨i⟩ ∈ order :=
      (Graph.ordered_of_topological horder).2 ⟨i⟩ (List.mem_map.mpr ⟨i, hi, rfl⟩)
    exact if_pos hdone

end CycleSearch

end TypedTree
