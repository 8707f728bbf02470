/-
The check for types that lead to themselves, for any list of types.

Main statements:

* `HandsOn` — one step at the same source value: from a union to an alternative, from an inspect
  shape to a target, from a nullable to its inside;
* `exists_samePathOrder_iff`, `exists_onCycle_of_samePathOrder` — the check passes if and only if
  no type leads to itself by such steps, and its fault names one that does;
* `perm_handles_of_samePathOrder` — a check that passes has visited every type once;
* `samePathOrder_exact` — both together, that the check comes to its end, and that a search by
  recursion would find the same.

Design notes: nothing is asked of the types but that the handles in them are those of the list. The
check passes over a handle from elsewhere, which leads nowhere, and so closes no cycle.
-/
import TypedTree.Proofs.Graph.Topological
import TypedTree.Proofs.Schema.Inspection

namespace TypedTree

open Relation (TransGen)

variable {types : List Defined}

/-! ### Steps at the same source value -/

/-- A type hands the source value that it is asked for on to another one. -/
inductive HandsOn (types : List Defined) (id next : TypeId) : Prop
  | alternative {d : Defined} {alternatives : List TypeId} (type : types[id.index]? = some d)
      (shape : d.shape = .union alternatives) (mem : next ∈ alternatives) : HandsOn types id next
  | target {d : Defined} {i : Inspect} {arm : Arm} (type : types[id.index]? = some d)
      (shape : d.shape = .inspect i) (mem : arm ∈ i.arms) (target : arm.target = next) :
      HandsOn types id next
  | inside {d : Defined} (type : types[id.index]? = some d) (shape : d.shape = .nullable next) :
      HandsOn types id next

theorem handsOn_iff {id next : TypeId} :
    HandsOn types id next ↔ next ∈ samePathAt (types.map (·.shape)) id := by
  rw [samePathAt, shapeAt, List.getElem?_map]
  constructor
  · intro h
    cases h with
    | alternative type shape mem => simpa [type, shape, Shape.samePath] using mem
    | target type shape mem target =>
      simpa [type, shape, Shape.samePath] using ⟨_, mem, target⟩
    | inside type shape => simp [type, shape, Shape.samePath]
  · intro h
    cases htype : types[id.index]? with
    | none => simp [htype, Shape.samePath] at h
    | some d =>
      rw [htype, Option.map_some, Option.getD_some] at h
      cases hshape : d.shape with
      | union alternatives =>
        rw [hshape] at h
        exact .alternative htype hshape h
      | inspect i =>
        rw [hshape] at h
        obtain ⟨arm, harm, htarget⟩ := List.mem_map.mp h
        exact .target htype hshape harm htarget
      | nullable inner =>
        rw [hshape] at h
        obtain rfl := List.mem_singleton.mp h
        exact .inside htype hshape
      | primitive | array | nameSet | product =>
        rw [hshape] at h
        cases h

theorem onCycle_samePathAt_iff {id : TypeId} :
    Graph.OnCycle (samePathAt (types.map (·.shape))) id ↔ TransGen (HandsOn types) id id := by
  rw [Graph.OnCycle, show HandsOn types = fun id next => next ∈ samePathAt (types.map (·.shape)) id
    from funext fun _ => funext fun _ => propext handsOn_iff]

/-- Only types of the list lead anywhere. -/
theorem mem_handles_of_samePathInside_ne_nil {id : TypeId} (h : samePathInside types id ≠ []) :
    id ∈ handles types.length := by
  obtain ⟨next, hnext⟩ := List.exists_mem_of_ne_nil _ h
  exact Inspect.mem_handles_iff.mpr
    (index_lt_of_mem_samePathAt (mem_samePathInside_iff.mp hnext).1)

/-- No cycle leaves the list. -/
theorem onCycle_samePathInside_iff {id : TypeId} :
    Graph.OnCycle (samePathInside types) id ↔
      Graph.OnCycle (samePathAt (types.map (·.shape))) id := by
  constructor
  · exact fun h => TransGen.mono (fun _ _ hstep => (mem_samePathInside_iff.mp hstep).1) _ _ h
  · intro h
    -- Every type on the way has a successor, the last one as well.
    have hinside : ∀ {start last : TypeId},
        TransGen (fun id next => next ∈ samePathAt (types.map (·.shape)) id) start last →
        last.index < types.length →
        TransGen (fun id next => next ∈ samePathInside types id) start last := by
      intro start last hleads
      induction hleads with
      | single hstep => exact fun hlast => .single (mem_samePathInside_iff.mpr ⟨hstep, hlast⟩)
      | tail _ hstep ih =>
        exact fun hlast => (ih (index_lt_of_mem_samePathAt hstep)).tail
          (mem_samePathInside_iff.mpr ⟨hstep, hlast⟩)
    obtain ⟨next, hnext, -⟩ := Relation.TransGen.head'_iff.mp h
    exact hinside h (index_lt_of_mem_samePathAt hnext)

theorem nodup_handles (count : Nat) : (handles count).Nodup :=
  List.nodup_range.map fun _ _ h => congrArg TypeId.index h

/-! ### The check -/

/-- The search of the check by recursion, cut off at a depth. -/
def samePathSearch (types : List Defined) (depth : Nat) : Except (List TypeId) (List TypeId) :=
  (handles types.length).foldlM
    (Graph.finishVertex (samePathAt (types.map (·.shape))) depth []) []

/-- The handles in unions, inspect shapes and nullables are those of the list. -/
def InRange (types : List Defined) : Prop :=
  ∀ d ∈ types, ∀ next ∈ d.shape.samePath, next.index < types.length

theorem InRange.index_lt (h : InRange types) {id next : TypeId} (hnext : HandsOn types id next) :
    next.index < types.length := by
  rw [handsOn_iff, samePathAt, shapeAt, List.getElem?_map] at hnext
  cases htype : types[id.index]? with
  | none => simp [htype, Shape.samePath] at hnext
  | some d =>
    rw [htype] at hnext
    exact h d (List.mem_of_getElem? htype) next hnext

/-- Where all handles are those of the list, the search goes along all of them. -/
theorem InRange.samePathInside_eq (h : InRange types) :
    samePathInside types = samePathAt (types.map (·.shape)) := by
  funext id
  refine List.filter_eq_self.mpr fun next hnext => ?_
  exact decide_eq_true (h.index_lt (handsOn_iff.mpr hnext))

/-- The check passes if and only if no type leads to itself. -/
theorem exists_samePathOrder_iff : (∃ order, samePathOrder types = .ok order) ↔
    ∀ id, ¬ Graph.OnCycle (samePathAt (types.map (·.shape))) id := by
  have hinside : (∃ order, samePathOrder types = .ok order) ↔
      ∀ id, ¬ Graph.OnCycle (samePathInside types) id := by
    rw [← Graph.topological_eq_ok_iff fun _ => mem_handles_of_samePathInside_ne_nil,
      samePathOrder_eq]
    cases Graph.topological (samePathInside types) (handles types.length) <;> simp
  exact hinside.trans (forall_congr' fun _ => not_congr onCycle_samePathInside_iff)

/-- A check that passes has visited every type once, behind those it hands its value on to. -/
theorem perm_handles_of_samePathOrder {order : List TypeId}
    (h : samePathOrder types = .ok order) : order.Perm (handles types.length) := by
  have horder := topological_of_samePathOrder h
  refine (List.perm_ext_iff_of_nodup (Graph.nodup_of_topological horder)
    (nodup_handles types.length)).mpr fun id => ⟨fun hid => ?_, fun hid => ?_⟩
  · obtain ⟨start, hstart, hleads⟩ := Graph.leads_of_topological horder id hid
    rcases Relation.ReflTransGen.cases_tail hleads with rfl | ⟨before, -, hstep⟩
    · exact hstart
    · exact Inspect.mem_handles_iff.mpr (mem_samePathInside_iff.mp hstep).2
  · exact (Graph.ordered_of_topological horder).2 id hid

/-- The fault names a type of the list that leads to itself. -/
theorem exists_onCycle_of_samePathOrder {e : SchemaError} (h : samePathOrder types = .error e) :
    ∃ id, id.index < types.length ∧ e = .unionCycle (nameAt types id) ∧
      Graph.OnCycle (samePathAt (types.map (·.shape))) id := by
  rw [samePathOrder_eq] at h
  split at h
  · cases h
  · next cycle hcycle =>
    obtain ⟨id, hlast, hid⟩ := Graph.exists_cycle_of_topological
      (fun _ => mem_handles_of_samePathInside_ne_nil) hcycle
    obtain ⟨next, hnext, -⟩ := Relation.TransGen.head'_iff.mp hid
    rw [hlast, Option.getD_some] at h
    exact ⟨id, index_lt_of_mem_samePathAt (mem_samePathInside_iff.mp hnext).1,
      (Except.error.inj h).symm, onCycle_samePathInside_iff.mp hid⟩

/-- The check passes if and only if no type leads to itself through unions, inspect shapes and
nullables. It has then visited every type once, each behind those that it hands its value on to, and
is done with all of them. Else it names a type that leads to itself. On any types it comes to its
end, and finds what a search by recursion finds, to whatever depth that exceeds the number of
types. -/
theorem samePathOrder_exact (types : List Defined) (hrange : InRange types) :
    ((∃ order, samePathOrder types = .ok order) ↔ ∀ id, ¬ TransGen (HandsOn types) id id) ∧
    (∀ order, samePathOrder types = .ok order →
      order.Perm (handles types.length) ∧
      ∀ before id after, order = before ++ id :: after → ∀ next, HandsOn types id next →
        next ∈ before) ∧
    (∀ e, samePathOrder types = .error e →
      ∃ id d, types[id.index]? = some d ∧ e = .unionCycle d.name ∧
        TransGen (HandsOn types) id id) ∧
    (∀ s, CycleSearch.search (samePathAt (types.map (·.shape))) types.length = .ok s →
      s.stack = [] ∧ s.marks = List.replicate types.length .done) ∧
    WellFounded (CycleSearch.Advances (samePathAt (types.map (·.shape)))) ∧
    ∀ depth, types.length < depth → samePathOrder types =
      match samePathSearch types depth with
      | .ok order => .ok order
      | .error cycle => .error (.unionCycle (nameAt types (cycle.getLast?.getD ⟨0⟩))) := by
  -- The search says this of handles inside the list; `hrange` has it that no other one is
  -- mentioned.
  refine ⟨exists_samePathOrder_iff.trans (forall_congr' fun _ => not_congr onCycle_samePathAt_iff),
    fun order h => ⟨perm_handles_of_samePathOrder h, ?_⟩, fun e h => ?_,
    fun s => CycleSearch.of_search_eq_ok, CycleSearch.wellFounded_advances _, fun depth hdepth => ?_⟩
  · intro before id after hsplit next hnext
    exact (Graph.ordered_of_topological (topological_of_samePathOrder h)).1 before id after hsplit
      next (mem_samePathInside_iff.mpr ⟨handsOn_iff.mp hnext, hrange.index_lt hnext⟩)
  · obtain ⟨id, hlt, rfl, hid⟩ := exists_onCycle_of_samePathOrder h
    have htype := List.getElem?_eq_getElem hlt
    exact ⟨id, _, htype, by rw [nameAt, htype]; rfl, onCycle_samePathAt_iff.mp hid⟩
  · have hlength : (handles types.length).length < depth := by simpa [handles] using hdepth
    have hsearch : samePathSearch types depth =
        Graph.topological (samePathInside types) (handles types.length) := by
      rw [samePathSearch, ← hrange.samePathInside_eq]
      exact Graph.foldlM_finishVertex_eq_topological
        (fun _ => mem_handles_of_samePathInside_ne_nil) hlength
    rw [hsearch]
    exact samePathOrder_eq types

/-- Three types that share the last one. -/
def sharing (last : Shape) : List Defined := [
  ⟨"First", .union [⟨1⟩, ⟨2⟩, ⟨1⟩], false⟩,
  ⟨"Second", .nullable ⟨2⟩, false⟩,
  ⟨"Last", last, false⟩]

theorem samePathOrder_exact_sharing :
    (InRange (sharing .nameSet) ∧ ∃ order, samePathOrder (sharing .nameSet) = .ok order ∧
      order.Perm (handles 3)) ∧
    InRange (sharing (.union [⟨1⟩])) ∧
      ∃ id d, (sharing (.union [⟨1⟩]))[id.index]? = some d ∧
        samePathOrder (sharing (.union [⟨1⟩])) = .error (.unionCycle d.name) ∧
        TransGen (HandsOn (sharing (.union [⟨1⟩]))) id id := by
  have hplain : InRange (sharing .nameSet) := by unfold InRange; decide
  have hring : InRange (sharing (.union [⟨1⟩])) := by unfold InRange; decide
  have horder : samePathOrder (sharing .nameSet) = .ok [⟨2⟩, ⟨1⟩, ⟨0⟩] := by
    rw [samePathOrder_eq]
    rfl
  have hfault : samePathOrder (sharing (.union [⟨1⟩])) = .error (.unionCycle "Second") := by
    rw [samePathOrder_eq]
    rfl
  obtain ⟨id, d, htype, heq, hid⟩ := (samePathOrder_exact _ hring).2.2.1 _ hfault
  exact ⟨⟨hplain, _, horder, ((samePathOrder_exact _ hplain).2.1 _ horder).1⟩, hring, id, d, htype,
    by rw [hfault, heq], hid⟩

end TypedTree
