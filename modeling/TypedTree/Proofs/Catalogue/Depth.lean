/-
The limit of nested nodes in the catalogue.

Main statements:

* `Registry.depth_guarded` — the limit cuts off no source that is nested no deeper, and bounds
  how many translated nodes are nested in one another, where fields read keys, and in the
  catalogue;
* `Registry.depth_guarded_branches` — both bounds are reached.

Design notes: besides keys, the fields of the catalogue read rest elements, which stand two
levels down in their records.
-/
import TypedTree.Proofs.Catalogue.Conformance
import TypedTree.Proofs.Translation.Depth
import TypedTree.Proofs.Translation.Limit

namespace TypedTree

/-- The limit guards the depth of the catalogue. -/
theorem Catalogue.full_guardsDepth : ∃ reg, full = .ok reg ∧ reg.GuardsDepth := by
  obtain ⟨reg, hreg, -, -, hsources⟩ := full_checks
  obtain ⟨b, hb⟩ := exists_freeze_of_freezeBuilt hreg
  have hreads : reg.ReadsWithin := Registry.readsWithin_of_sourcesSatisfy hsources
  exact ⟨reg, hreg, Registry.ReadsWithin.guardsDepth hreads (Builder.planned_of_freeze hb)⟩

namespace Registry

/-- In every registry whose fields read keys, and in the catalogue, the limit cuts off no source
in which arrays and objects are nested no deeper, so that a text that can be read is never cut
off at the default limit, and no chain of translated nodes in one another is longer than the
limit. -/
theorem depth_guarded :
    (∀ (b : Builder) (reg : Registry), b.freeze = .ok reg → reg.ReadsKeys → reg.GuardsDepth) ∧
    ∃ reg, Catalogue.full = .ok reg ∧ reg.GuardsDepth := by
  refine ⟨?_, Catalogue.full_guardsDepth⟩
  intro b reg hb hkeys
  have hreads : reg.ReadsWithin := ReadsKeys.readsWithin hkeys
  exact ReadsWithin.guardsDepth hreads (Builder.planned_of_freeze hb)

/-- Whether a value consists of two branches and a leaf. -/
def isTwoBranches : Value → Bool
  | .node id _ [(next, .node id' _ [(next', .node _ _ _ _)] _)] _ =>
    id = ⟨0⟩ && (id' = ⟨0⟩ && (next = "next" && next' = "next"))
  | _ => false

theorem exists_nested_of_isTwoBranches {reg : Registry} (hreg : branches.freeze = .ok reg)
    {v : Value} (h : isTwoBranches v = true) : ∃ nodes, reg.Nested v nodes ∧ nodes.length = 3 := by
  -- A branch holds the value of the next one, which is neither computed nor a default.
  have hbranch : ∀ {name : String} {v : Value} {m : Option Metadata} {nodes : List Node},
      reg.Nested v nodes →
      reg.Nested (.node ⟨0⟩ name [("next", v)] m) (⟨⟨0⟩, name, [("next", v)], m⟩ :: nodes) :=
    fun hnext => @Nested.field reg ⟨⟨0⟩, _, _, _⟩ _ _ _ _ (Builder.shape_of_freeze hreg ⟨0⟩)
      List.mem_cons_self rfl rfl nofun hnext
  unfold isTwoBranches at h
  split at h
  · next id name next id' name' next' leaf leafName leafFields m m' m'' =>
    simp only [Bool.and_eq_true, decide_eq_true_eq] at h
    obtain ⟨rfl, rfl, rfl, rfl⟩ := h
    exact ⟨_, hbranch (hbranch (.node ⟨leaf, leafName, leafFields, m⟩)), rfl⟩
  · cases h

/-- Two branches and a leaf are nested three deep in the source, and within three nodes they are
translated to three nodes in one another. What a text is read as is not cut off either. -/
theorem depth_guarded_branches : ∃ reg v nodes, branches.freeze = .ok reg ∧ reg.ReadsKeys ∧
    (branchSource 2).height = 3 ∧
    (∀ place, reg.translate 3 ⟨2⟩ (branchSource 2) ≠ .error (.recursionLimit place)) ∧
    reg.translate 3 ⟨2⟩ (branchSource 2) = .ok v ∧ reg.Nested v nodes ∧
    reg.Chain 3 (.whole ⟨2⟩ (branchSource 2)) v nodes ∧ nodes.length = 3 ∧ nodes.length ≤ 3 ∧
    Json.read "[[]]" = .ok (.arr [.arr []]) ∧
    ∀ place, reg.translate defaultLimit ⟨2⟩ (.arr [.arr []]) ≠ .error (.recursionLimit place) := by
  obtain ⟨reg, hreg, hcheck⟩ : ∃ reg, branches.freeze = .ok reg ∧ (reg.sourcesSatisfy isKey &&
      reg.translatesWithin 3 6 ⟨2⟩ (branchSource 2) isTwoBranches) = true :=
    exists_of_check (by decide +kernel)
  obtain ⟨hsources, htranslates⟩ := Bool.and_eq_true_iff.mp hcheck
  have hkeys : reg.ReadsKeys := readsKeys_of_sourcesSatisfy hsources
  obtain ⟨v, hv, htwo⟩ := exists_of_translatesWithin htranslates
  obtain ⟨nodes, hnested, hlength⟩ := exists_nested_of_isTwoBranches hreg htwo
  have hguards := depth_guarded.1 branches reg hreg hkeys
  have hchain := hguards.nested hv hnested
  have hread : Json.read "[[]]" = .ok (.arr [.arr []]) := rfl
  exact ⟨reg, v, nodes, hreg, hkeys, rfl, fun _ => hguards.source (Nat.le_refl 3), hv, hnested,
    hchain, hlength, hguards.chain hv hchain, hread, fun _ => hguards.text hread⟩

end Registry

end TypedTree
