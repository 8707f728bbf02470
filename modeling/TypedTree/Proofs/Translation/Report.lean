/-
What failures report.

A failure at a type says what was found at its path. Main statements:

* `Registry.Raises.found` — what is reported stands in the source of the request, unless it
  stood ready;
* `Registry.found_of_rejection` — so a failure of a whole source reports what stands at its path,
  unless an inspect shape handed over a value that does not fit the field for its key;
* `Registry.found_translated` — then it is the translated value that is reported, and a record
  gets the name of its type in the place of its own tag.

Design notes: a value that stands ready has been translated, and its source is not at hand any
more.
-/
import TypedTree.Proofs.Translation.Location

namespace TypedTree

namespace Registry

variable {reg : Registry} {limit : Nat} {s : Request}

/-- What a failure reports at a path below a request, where something else may stand in the
source: a value that stands ready and does not fit the field that reads its key. -/
structure ReportsReady (reg : Registry) (s : Request) (ready : Preset) (record : Json.Record)
    (field : Field) (r : Rejection) : Prop where
  reads : ∃ p, reg.shape s.id = .product p ∧ field ∈ p.fields ∧ field.isComputed = false
  source : s.source = some (.obj record)
  preset : s.preset = some ready
  key : field.source = .key ready.key
  misfit : reg.isInstance field.type ready.value = false
  rejection : r = ⟨.mismatch, .type (reg.name field.type), s.path.field ready.key,
    .ofValue ready.value⟩

/-- What is reported stands in the source of the request, unless it stood ready. -/
theorem Raises.found {kind : Rejection.Kind} {name : String} {place : Path} {found : Found}
    (h : reg.Raises limit s (.rejected ⟨kind, .type name, place, found⟩)) :
    ∃ keys x, place.keys = s.path.keys ++ keys ∧ Json.follow s.source keys = some x ∧
      (found = .of x ∨ ∃ ready record field,
        reg.ReportsReady s ready record field ⟨kind, .type name, place, found⟩ ∧
        x = record.get? ready.key) := by
  generalize he : TranslationError.rejected ⟨kind, .type name, place, found⟩ = e at h
  cases h with
  | mismatch =>
    cases he
    exact ⟨[], s.source, (List.append_nil _).symm, Json.follow_nil _, .inl rfl⟩
  | exhausted =>
    cases he
    exact ⟨[], s.source, (List.append_nil _).symm, Json.follow_nil _, .inl rfl⟩
  | literal => cases he
  | limit => cases he
  | @item items item i source mem =>
    cases he
    refine ⟨[.index i], some item, rfl, ?_, .inl rfl⟩
    rw [source, Json.follow_index mem, Json.follow_nil]
  | @preset p record field ready shape source mem supplied preset key misfit =>
    cases he
    refine ⟨[.field ready.key], record.get? ready.key, rfl, ?_,
      .inr ⟨ready, record, field,
        ⟨⟨p, shape, mem, supplied⟩, source, preset, key, misfit, rfl⟩, rfl⟩⟩
    rw [source, Json.follow_field, Json.follow_nil]

/-- An inspect shape handed over a translated value, which is reported where it does not fit the
field for the inspected key. The value was translated from what stands at the path. -/
def ReportsProbed (reg : Registry) (limit : Nat) (root s : Request) (r : Rejection)
    (x : Option Json) : Prop :=
  ∃ i mid probed record field, reg.Reaches limit root mid ∧ reg.HandsDown limit i probed mid s ∧
    reg.ReportsReady s ⟨i.field, probed⟩ record field r ∧ x = record.get? i.field ∧
    reg.answer limit (s.part i.probe x r.path) = .ok probed

/-- A failure at a type reports what stands at its path in the source, if it is raised by a
request that does not come behind a value made from a whole record. Only where an inspect shape
handed over a translated value that does not fit the field for its key, that value is reported. -/
theorem found_of_rejection {id : TypeId} {source : Json} {kind : Rejection.Kind} {name : String}
    {place : Path} {found : Found}
    (h : reg.translate limit id source = .error (.rejected ⟨kind, .type name, place, found⟩)) :
    (∃ s, reg.Reaches limit (.whole id source) s ∧
      reg.Raises limit s (.rejected ⟨kind, .type name, place, found⟩)) ∧
    ∀ s, reg.Reaches limit (.whole id source) s →
      reg.Raises limit s (.rejected ⟨kind, .type name, place, found⟩) →
      ¬ reg.BehindExtraction limit (.whole id source) s →
      ∃ keys x, place.keys = .field "root" :: keys ∧ Json.follow (some source) keys = some x ∧
        (found = .of x ∨
          reg.ReportsProbed limit (.whole id source) s ⟨kind, .type name, place, found⟩ x) := by
  constructor
  · rw [translate_eq] at h
    split at h
    · exact exists_raises _ h
    · cases h
  · intro s hrun hraises hbehind
    obtain ⟨keys, hpath, hfollow⟩ := hrun.standsIn_or_behindExtraction.resolve_right hbehind
    obtain ⟨more, x, hmore, hx, hfound⟩ := hraises.found
    have hplace : place.keys = .field "root" :: (keys ++ more) := by
      rw [hmore, hpath, List.append_assoc]
      rfl
    have hstands : Json.follow (some source) (keys ++ more) = some x :=
      (Json.follow_append hfollow more).trans hx
    refine ⟨keys ++ more, x, hplace, hstands, hfound.imp_right ?_⟩
    rintro ⟨ready, record, field, hready, rfl⟩
    -- What stood ready was probed by the last inspect shape on the way.
    obtain ⟨i, mid, hmid, hhand, hkey⟩ := exists_handsDown_of_preset rfl hrun hready.preset
    obtain ⟨key, probed⟩ := ready
    obtain rfl : key = i.field := hkey
    refine ⟨i, mid, probed, record, field, hmid, hhand, hready, rfl, ?_⟩
    have hprobe := hhand.answer_probe hready.source
    have hrejection := congrArg Rejection.path hready.rejection
    exact hrejection ▸ hprobe

/-! ### A type with another name than its tag -/

/-- A type for leaves that is named otherwise, and an inspect shape that probes it for a field of
strings. -/
def renamed : Builder := { declarations := [
  { name := "string", body := some (.primitive .string) },
  { name := "Renamed", body := some (.product { source := { tag := "Leaf" }, fields := [] }) },
  { name := "Owner", body := some (.product {
      source := { tag := "T" }, fields := [.required "value" ⟨0⟩] }) },
  { name := "Pick", body := some (.inspect {
      field := "value", probe := ⟨1⟩, arms := [⟨⟨1⟩, ⟨2⟩⟩] }) }] }

/-- A record with a leaf. -/
def leafOwner : Json.Record := [("type", .str "T"), ("value", .obj [("type", .str "Leaf")])]

/-- The failure that the leaf is no string, with what is said to be found. -/
def noString (found : Found) : TranslationError :=
  .rejected ⟨.mismatch, .type "string", Path.root.field "value", found⟩

theorem exists_renamed : ∃ reg, renamed.freeze = .ok reg ∧ reg.ReadsKeys := by
  obtain ⟨reg, hreg, hcheck⟩ : ∃ reg, renamed.freeze = .ok reg ∧ reg.sourcesSatisfy isKey = true :=
    exists_of_check (by decide +kernel)
  exact ⟨reg, hreg, readsKeys_of_sourcesSatisfy hcheck⟩

/-- What the inspect shape makes of the leaf. -/
def renamedLeaf (reg : Registry) : Value :=
  reg.buildNode ⟨1⟩ { source := { tag := "Leaf" }, fields := [] } [("type", .str "Leaf")] []

/-- The request for the owner, where the translated leaf stands ready. -/
def ownerRequest (reg : Registry) : Request :=
  (Request.whole ⟨3⟩ (.obj leafOwner)).handing ⟨2⟩ ⟨"value", renamedLeaf reg⟩

/-- The inspect shape translates the leaf, and hands it to the owner. -/
theorem hands_renamed (hreg : renamed.freeze = .ok reg) :
    reg.Hands defaultLimit { field := "value", probe := ⟨1⟩, arms := [⟨⟨1⟩, ⟨2⟩⟩] }
      (renamedLeaf reg) (.whole ⟨3⟩ (.obj leafOwner)) (ownerRequest reg) := by
  have hshape := Builder.shape_of_freeze hreg
  have hbuilds : reg.buildsFrom "T" ⟨2⟩ = true := by
    rw [buildsFrom_eq, hshape]
    rfl
  have hleaf : reg.isInstance ⟨1⟩ (renamedLeaf reg) = true := by
    rw [isInstance_eq, hshape]
    rfl
  refine @Hands.target _ _ _ _ _ leafOwner ⟨⟨1⟩, ⟨2⟩⟩ (hshape ⟨3⟩)
    (inspectable?_eq_some rfl rfl List.mem_cons_self hbuilds) ?_ ?_
  · exact (answer_product (hshape ⟨1⟩)).trans rfl
  · simp [hleaf]

/-- The owner finds the leaf ready, where it reads a string. -/
theorem takePreset_renamed (hreg : renamed.freeze = .ok reg) :
    reg.takePreset ⟨0⟩ (renamedLeaf reg) (Path.root.field "value") =
      .error (noString (.node "Renamed")) := by
  have hname := Builder.name_of_freeze hreg
  refine takePreset_eq_error_iff.mpr ⟨?_, ?_⟩
  · rw [isInstance_eq, Builder.shape_of_freeze hreg]
    rfl
  · show _ = TranslationError.rejected ⟨.mismatch, .type (reg.name ⟨0⟩), _, .node (reg.name ⟨1⟩)⟩
    rw [hname, hname]
    rfl

/-- The leaf is reported under the name of its type. -/
theorem translate_renamed (hreg : renamed.freeze = .ok reg) :
    reg.translate defaultLimit ⟨3⟩ (.obj leafOwner) = .error (noString (.node "Renamed")) := by
  have hslots : [Field.required "value" ⟨0⟩].mapM (fun field =>
      if field.isComputed then .ok none
      else some <$> reg.answerField defaultLimit (ownerRequest reg) leafOwner field) =
      .error (noString (.node "Renamed")) := by
    rw [List.mapM_cons, answerField_of_preset rfl rfl]
    show (some <$> reg.takePreset ⟨0⟩ (renamedLeaf reg) (Path.root.field "value") >>= _) = _
    rw [takePreset_renamed hreg]
    rfl
  have howner : reg.answer defaultLimit (ownerRequest reg) = .error (noString (.node "Renamed")) :=
    (answer_product (Builder.shape_of_freeze hreg ⟨2⟩)).trans (congrArg (· >>= _) hslots)
  have hid : reg.contains ⟨3⟩ = true := by
    rw [contains, Builder.size_of_freeze hreg]
    rfl
  rw [translate_eq, if_pos hid, (hands_renamed hreg).answer_eq]
  exact howner

/-- What stands at the path of the failure is the leaf under its own tag. -/
theorem ne_of_follow_renamed {keys : List PathKey} {x : Option Json}
    (hplace : (Path.root.field "value").keys = .field "root" :: keys)
    (hx : Json.follow (some (.obj leafOwner)) keys = some x) : Found.node "Renamed" ≠ .of x := by
  cases hplace
  cases hx
  exact fun hfound => absurd (Found.node.inj hfound) (by decide)

/-- The failure is raised by the request for the owner, behind no value made from a record, and
reports the translated leaf that was handed over. -/
theorem found_of_rejection_renamed : ∃ reg s, renamed.freeze = .ok reg ∧
    reg.translate defaultLimit ⟨3⟩ (.obj leafOwner) = .error (noString (.node "Renamed")) ∧
    reg.Reaches defaultLimit (.whole ⟨3⟩ (.obj leafOwner)) s ∧
    reg.Raises defaultLimit s (noString (.node "Renamed")) ∧
    ¬ reg.BehindExtraction defaultLimit (.whole ⟨3⟩ (.obj leafOwner)) s ∧
    ∃ x, reg.ReportsProbed defaultLimit (.whole ⟨3⟩ (.obj leafOwner)) s
      ⟨.mismatch, .type "string", Path.root.field "value", .node "Renamed"⟩ x := by
  obtain ⟨reg, hreg, hkeys⟩ := exists_renamed
  have hrun : reg.Reaches defaultLimit (.whole ⟨3⟩ (.obj leafOwner)) (ownerRequest reg) :=
    .single (.settles (.inr ⟨_, _, hands_renamed hreg⟩))
  obtain ⟨hmisfit, heq⟩ := takePreset_eq_error_iff.mp (takePreset_renamed hreg)
  have hraises : reg.Raises defaultLimit (ownerRequest reg) (noString (.node "Renamed")) := by
    rw [heq]
    exact @Raises.preset _ _ _ _ leafOwner (.required "value" ⟨0⟩) ⟨"value", renamedLeaf reg⟩
      (Builder.shape_of_freeze hreg ⟨2⟩) rfl List.mem_cons_self rfl rfl rfl hmisfit
  have hbehind : ¬ reg.BehindExtraction defaultLimit (.whole ⟨3⟩ (.obj leafOwner))
      (ownerRequest reg) := not_behindExtraction_of_readsKeys hkeys
  obtain ⟨keys, x, hplace, hx, hfound | hprobed⟩ :=
    (found_of_rejection (translate_renamed hreg)).2 _ hrun hraises hbehind
  · exact absurd hfound (ne_of_follow_renamed hplace hx)
  · exact ⟨reg, _, hreg, translate_renamed hreg, hrun, hraises, hbehind, x, hprobed⟩

/-- A failure may report a value under another tag than what stands at its path in the source,
also in a registry in which no value is made from a whole record. -/
theorem found_translated :
    ¬ ∀ (b : Builder) (reg : Registry) (limit : Nat) (id : TypeId) (source : Json)
      (kind : Rejection.Kind) (name : String) (place : Path) (found : Found)
      (keys : List PathKey) (x : Option Json), b.freeze = .ok reg → reg.ReadsKeys →
      reg.translate limit id source = .error (.rejected ⟨kind, .type name, place, found⟩) →
      place.keys = .field "root" :: keys → Json.follow (some source) keys = some x →
      found = .of x := by
  intro h
  obtain ⟨reg, hreg, hkeys⟩ := exists_renamed
  exact ne_of_follow_renamed rfl rfl (h renamed reg defaultLimit ⟨3⟩ (.obj leafOwner) _ _ _ _
    [.field "value"] _ hreg hkeys (translate_renamed hreg) rfl rfl)

end Registry

end TypedTree
