/-
The catalogue does not look at metadata.

Main statements:

* `Catalogue.full_overlooks` — the catalogue asks for no metadata;
* `Catalogue.metadata_overlooked` — sources that differ in metadata alone are translated alike.

Design notes: a template element carries the source of its value along, so what is inside of it
counts as it is.
-/
import TypedTree.Proofs.Catalogue.Elements
import TypedTree.Proofs.Translation.Overlooking

namespace TypedTree

namespace Catalogue

/-- Template elements carry their value along. -/
def carriesValue (tag key : String) : Bool := tag == "TemplateElement" && key == "value"

/-- Whether no type with a name of its own carries its source along, as far as so many steps
tell. -/
def namesSelectWithin (reg : Registry) (steps : Nat) : Bool :=
  reg.ids.all fun id => (reg.def? id).all fun d => d.structural || reg.selectsWithin steps id

/-- The catalogue asks for no metadata. Of its types only structural ones carry their source
along. -/
theorem full_overlooks : ∃ reg, full = .ok reg ∧ reg.Overlooks carriesValue ∧
    ∀ {id d}, reg.def? id = some d → d.structural = false → reg.Selective id := by
  obtain ⟨reg, hreg, hcheck⟩ : ∃ reg, full = .ok reg ∧
      (reg.overlooksWithin carriesValue 8 && namesSelectWithin reg 8) = true :=
    exists_of_check (by decide +kernel)
  obtain ⟨hoverlooks, hnames⟩ := Bool.and_eq_true_iff.mp hcheck
  refine ⟨reg, hreg, Registry.overlooks_of_overlooksWithin hoverlooks, ?_⟩
  intro id d hid hnamed
  have hselects := List.all_eq_true.mp hnames id (Registry.mem_ids_of_def? hid)
  rw [hid, Option.all_some, hnamed, Bool.false_or] at hselects
  exact Registry.selective_of_selectsWithin hselects

/-- Sources that are the same but for the metadata of records that are translated, well-formed or
not, are translated alike: to values that are the same but for the metadata of their nodes, or
to failures of the same kind, at the same path, with the same thing expected there. -/
theorem metadata_overlooked {reg : Registry} (hreg : full = .ok reg) {id : TypeId} {d : TypeDef}
    (hid : reg.def? id = some d) (hnamed : d.structural = false) {source source' : Json}
    (h : source.bare carriesValue = source'.bare carriesValue) (limit : Nat) :
    Matches SameBare (reg.translate limit id source) (reg.translate limit id source') := by
  obtain ⟨reg', hreg', hoverlooks, hselective⟩ := full_overlooks
  cases hreg.symm.trans hreg'
  rw [Registry.translate_eq, Registry.translate_eq]
  split
  · exact hoverlooks.answer_matches (.whole id source) (congrArg some h) rfl
      (hselective hid hnamed)
  · exact .error _

/-- An identifier with a start that is no number. -/
def misplacedSource : Json :=
  .obj ([("type", .str "Identifier")] ++ ("start", .str "here") :: [("name", .str "x")])

/-- An identifier is translated as if it had no start at all. -/
theorem metadata_overlooked_identifier : ∃ reg id d v v', full = .ok reg ∧
    reg.def? id = some d ∧ d.structural = false ∧
    misplacedSource.bare carriesValue = (identifierSource "x").bare carriesValue ∧
    reg.translate 256 id misplacedSource = .ok v ∧
    reg.translate 256 id (identifierSource "x") = .ok v' ∧ SameBare v v' := by
  obtain ⟨reg, hreg, hcheck⟩ : ∃ reg, full = .ok reg ∧
      ((reg.def? ⟨41⟩).any (!·.structural) &&
        reg.translatesWithin 256 4 ⟨41⟩ misplacedSource fun _ => true) = true :=
    exists_of_check (by decide +kernel)
  obtain ⟨hnamed, htranslates⟩ := Bool.and_eq_true_iff.mp hcheck
  obtain ⟨d, hid, hnamed⟩ := (Option.any_eq_true _ _).mp hnamed
  have hnamed : d.structural = false := by simpa using hnamed
  obtain ⟨v, hv, -⟩ := Registry.exists_of_translatesWithin htranslates
  have hbare : misplacedSource.bare carriesValue = (identifierSource "x").bare carriesValue :=
    Json.bare_obj_metadata (by decide) rfl
  have hmatches := metadata_overlooked hreg hid hnamed hbare 256
  rw [hv] at hmatches
  generalize htranslate : reg.translate 256 ⟨41⟩ (identifierSource "x") = result at hmatches
  cases hmatches with
  | @ok _ v' related =>
    exact ⟨reg, ⟨41⟩, d, v, v', hreg, hid, hnamed, hbare, hv, htranslate, related⟩

end Catalogue

end TypedTree
