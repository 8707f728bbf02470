/-
Unions whose alternatives are listed in another way.

Two registries may differ in how their unions list what they offer. Main statements:

* `Registry.OffersAlike` — two lists of alternatives offer the same, as far as any test can tell
  that a union passes if an alternative of it does;
* `Registry.Regroups` — one registry is another whose unions list the same in another way;
* `Registry.Regroups.isInstance_eq`, `Registry.Regroups.buildsFrom_eq` — membership and the search
  for a tag are the same in both;
* `Registry.Regroups.translateRound_eq` — and so is a round of translation, but for unions.

Design notes: what a choice answers is not spoken of here. It hangs on the order of alternatives,
which may be another one.
-/
import TypedTree.Proofs.Translation.Termination

namespace TypedTree

namespace Registry

/-- Two lists of alternatives offer the same, to every test that a union passes if one of its
alternatives does. -/
def OffersAlike (reg : Registry) (l l' : List TypeId) : Prop :=
  ∀ test : TypeId → Bool,
    (∀ id inner, reg.shape id = .union inner → test id = inner.any test) →
    l'.any test = l.any test

/-- A body whose alternatives are listed in another way. -/
inductive RegroupsShape (reg : Registry) : Shape → Shape → Prop
  | same (shape : Shape) : RegroupsShape reg shape shape
  | union {l l' : List TypeId} (offers : reg.OffersAlike l l') :
      RegroupsShape reg (.union l) (.union l')

/-- One registry is another whose unions list what they offer in another way. -/
structure Regroups (reg reg' : Registry) : Prop where
  size : reg'.size = reg.size
  name : ∀ id, reg'.name id = reg.name id
  plan : ∀ id p, reg.shape id = .product p → reg'.plan id = reg.plan id
  shape : ∀ id, reg.RegroupsShape (reg.shape id) (reg'.shape id)

namespace Regroups

variable {reg reg' : Registry} {limit : Nat} (h : reg.Regroups reg')
include h

theorem isInstance_eq (id : TypeId) (v : Value) : reg'.isInstance id v = reg.isInstance id v := by
  suffices hall : ∀ x : TypeId × Value, reg'.isInstance x.1 x.2 = reg.isInstance x.1 x.2 from
    hall (id, v)
  intro x
  -- The members of the list in the second registry are asked, so the recursion is its own.
  have hwf := wellFounded_tests_iff.mpr (wellFounded_follows reg')
  induction x using hwf.induction with
  | _ x ih =>
    obtain ⟨id, v⟩ := x
    have hstep : ∀ next ∈ (reg'.shape id).samePath,
        reg'.isInstance next v = reg.isInstance next v :=
      fun next hnext => ih (next, v) (.samePath hnext)
    have hregroups := h.shape id
    generalize hshape : reg.shape id = shape, hshape' : reg'.shape id = shape' at hregroups hstep
    rw [Registry.isInstance_eq, Registry.isInstance_eq, hshape, hshape']
    cases hregroups with
    | @union l l' offers =>
      have htest : ∀ id inner, reg.shape id = .union inner →
          reg.isInstance id v = inner.any fun a => reg.isInstance a v := by
        intro id inner hinner
        rw [Registry.isInstance_eq, hinner]
      calc l'.any (fun a => reg'.isInstance a v)
          = l'.any fun a => reg.isInstance a v := any_congr_of_mem hstep
        _ = l.any fun a => reg.isInstance a v := offers _ htest
    | same =>
      cases shape with
      | primitive | nameSet | product => rfl
      | array item =>
        cases v with
        | list items => exact all_congr_of_mem fun v hv => ih (item, v) (.item hshape' hv)
        | null | bool | number | string | any | names | node => rfl
      | nullable inner =>
        dsimp only
        rw [hstep inner List.mem_cons_self]
      | union alternatives => exact any_congr_of_mem hstep
      | inspect i =>
        exact any_congr_of_mem fun arm harm => hstep arm.target (List.mem_map_of_mem harm)

theorem buildsFrom_eq (tag : String) (id : TypeId) :
    reg'.buildsFrom tag id = reg.buildsFrom tag id := by
  have hwf := wellFounded_follows reg'
  induction id using hwf.induction with
  | _ id ih =>
    have hregroups := h.shape id
    rw [Registry.buildsFrom_eq, Registry.buildsFrom_eq, any_congr_of_mem ih]
    generalize reg.shape id = shape, reg'.shape id = shape' at hregroups
    cases hregroups with
    | same => rfl
    | union offers =>
      refine congrArg _ (offers _ fun id inner hinner => ?_)
      rw [Registry.buildsFrom_eq, hinner]
      rfl

theorem mismatch_eq : reg'.mismatch = reg.mismatch := by
  funext id path source
  rw [mismatch, mismatch, h.name]

theorem exhausted_eq : reg'.exhausted = reg.exhausted := by
  funext id path source
  rw [exhausted, exhausted, h.name]

theorem matchRecord_eq : reg'.matchRecord = reg.matchRecord := by
  funext id pattern source path
  simp only [matchRecord, h.mismatch_eq]

theorem readField_eq : reg'.readField = reg.readField := by
  have htake : reg'.takePreset = reg.takePreset := by
    funext type value path
    simp only [takePreset, h.isInstance_eq, h.name]
  funext field record path preset
  simp only [readField, htake]

theorem inspectable?_eq : reg'.inspectable? = reg.inspectable? := by
  funext i source
  simp only [inspectable?, h.buildsFrom_eq]

theorem buildNode_eq {id : TypeId} {p : Product} (hp : reg.shape id = .product p) :
    reg'.buildNode id p = reg.buildNode id p := by
  funext record slots
  simp only [buildNode, h.name, h.plan id p hp]

/-- A round is the same in both where the body is. -/
theorem translateRound_eq {self : Request → Except TranslationError Value} {r : Request}
    (hshape : reg'.shape r.id = reg.shape r.id) :
    reg'.translateRound limit self r = reg.translateRound limit self r := by
  rw [translateRound, translateRound, hshape]
  cases hbody : reg.shape r.id with
  | product p => simp only [h.matchRecord_eq, h.readField_eq, h.buildNode_eq hbody]
  | primitive kind => simp only [translatePrimitive, h.mismatch_eq]
  | nameSet => simp only [translateNames, h.mismatch_eq]
  | array item | nullable inner => simp only [h.mismatch_eq]
  | union alternatives => simp only [h.exhausted_eq]
  | inspect i => simp only [h.inspectable?_eq, h.isInstance_eq, h.mismatch_eq]

end Regroups

end Registry

end TypedTree
