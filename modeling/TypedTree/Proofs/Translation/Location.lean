/-
The places of failures.

The path of a failure leads into the source that was translated. Main statements:

* `Json.follow` — what stands at the end of a path below a value;
* `Request.StandsIn` — the source of a request is what stands at its place in another source;
* `Registry.Asks.extends` — each step of a run goes on from the path before;
* `Registry.Reaches.standsIn_or_behindExtraction` — every request of a run stands in the source,
  but for those behind a value that is made from a record;
* `Registry.Raises.located` — a failure is raised at a place that can be reached in the source
  of its request;
* `Registry.failure_located` — so the failure of a whole source is at a place that can be
  reached in it, and every failure is at or below the place that was asked for.

Design notes: a value that is made from a whole record has a path of its own, at which nothing
needs to stand in the source.
-/
import TypedTree.Proofs.Path
import TypedTree.Proofs.Translation.Elements
import TypedTree.Proofs.Translation.Failure

namespace TypedTree

/-! ### Following a path -/

/-- What stands at the end of a path below a value that may be missing: each step enters a
record, or an item that an array has. There are no steps below a missing value, so only the
last one may name a key that the record does not have. -/
def Json.follow : Option Json → List PathKey → Option (Option Json)
  | source, [] => some source
  | some (.obj record), .field key :: keys => follow (Json.Record.get? record key) keys
  | some (.arr items), .index i :: keys =>
    match items[i]? with
    | some item => follow (some item) keys
    | none => none
  | _, _ :: _ => none

theorem Json.follow_nil (source : Option Json) : follow source [] = some source := by
  unfold follow
  rfl

theorem Json.follow_field (record : Json.Record) (key : String) (keys : List PathKey) :
    follow (some (.obj record)) (.field key :: keys) = follow (record.get? key) keys := rfl

theorem Json.follow_index {items : List Json} {i : Nat} {item : Json} (h : items[i]? = some item)
    (keys : List PathKey) :
    follow (some (.arr items)) (.index i :: keys) = follow (some item) keys := by
  rw [follow, h]

/-- A path is followed step by step. -/
theorem Json.follow_append {source x : Option Json} {keys : List PathKey}
    (h : follow source keys = some x) (more : List PathKey) :
    follow source (keys ++ more) = follow x more := by
  induction keys generalizing source with
  | nil =>
    rw [follow_nil] at h
    cases h
    rfl
  | cons key keys ih =>
    rcases source with _ | (_ | _ | _ | _ | items | record)
    case some.arr =>
      cases key with
      | field name => cases h
      | index i =>
        rw [follow] at h
        cases hitem : items[i]? with
        | none =>
          rw [hitem] at h
          cases h
        | some item =>
          rw [hitem] at h
          rw [List.cons_append, follow_index hitem]
          exact ih h
    case some.obj =>
      cases key with
      | field name => exact ih h
      | index i => cases h
    all_goals cases key <;> cases h

/-! ### Places of requests -/

/-- The path of a failure; a type that does not exist has none. -/
def TranslationError.path? : TranslationError → Option Path
  | rejected r => some r.path
  | recursionLimit path => some path
  | unknownType _ => none

namespace Request

/-- The path of a request goes on from that of another one by the given steps. -/
def Extends (r : Request) (keys : List PathKey) (s : Request) : Prop :=
  s.path.keys = r.path.keys ++ keys

/-- The source of a request is what stands at its place in the source of another one. -/
def StandsIn (s r : Request) : Prop :=
  ∃ keys, r.Extends keys s ∧ Json.follow r.source keys = some s.source

variable {r s t : Request}

theorem Extends.trans {keys more : List PathKey} (h : r.Extends keys s) (h' : s.Extends more t) :
    r.Extends (keys ++ more) t := by
  rw [Extends, h', h, List.append_assoc]

theorem StandsIn.refl (r : Request) : r.StandsIn r :=
  ⟨[], (List.append_nil _).symm, Json.follow_nil _⟩

theorem StandsIn.trans (h : s.StandsIn r) (h' : t.StandsIn s) : t.StandsIn r := by
  obtain ⟨keys, hkeys, hfollow⟩ := h
  obtain ⟨more, hmore, hfollow'⟩ := h'
  exact ⟨keys ++ more, hkeys.trans hmore, (Json.follow_append hfollow more).trans hfollow'⟩

theorem SamePlace.standsIn (h : r.SamePlace s) : s.StandsIn r := by
  refine ⟨[], ?_, ?_⟩
  · rw [Extends, h.path, List.append_nil]
  · rw [Json.follow_nil, h.source]

theorem standsIn_item {items : List Json} {x : Json} {i : Nat} {item : TypeId}
    (hsource : r.source = some (.arr items)) (hmem : (x, i) ∈ (stripRest items).zipIdx) :
    (r.item item x i).StandsIn r := by
  have hx : items[i]? = some x := getElem?_of_stripRest (List.mem_zipIdx_iff_getElem?.mp hmem)
  refine ⟨[.index i], rfl, ?_⟩
  rw [hsource, Json.follow_index hx, Json.follow_nil]
  rfl

theorem standsIn_part {record : Json.Record} {key : String} {type : TypeId}
    (hsource : r.source = some (.obj record)) :
    (r.part type (record.get? key) (r.path.field key)).StandsIn r := by
  refine ⟨[.field key], rfl, ?_⟩
  rw [hsource, Json.follow_field, Json.follow_nil]
  rfl

end Request

namespace Registry

open Request (Extends)

variable {reg : Registry} {limit : Nat} {r s root : Request} {e : TranslationError}

/-! ### Steps of a run -/

/-- A step into a field whose value is made from the whole record. -/
def Extracts (reg : Registry) (limit : Nat) (r s : Request) : Prop :=
  reg.Asks limit r s ∧ ∃ (p : Product) (record : Json.Record) (field : Field) (e : Extraction),
    reg.shape r.id = .product p ∧ field ∈ p.fields ∧ field.isComputed = false ∧
    field.source = .extract e ∧
    s = r.part field.type (field.sourceIn record) (r.path.field field.stepKey)

/-- After a step the source stands in the one before, unless it was made from a record. -/
theorem Asks.standsIn_or_extracts (h : reg.Asks limit r s) :
    s.StandsIn r ∨ reg.Extracts limit r s := by
  cases h with
  | settles step => exact .inl step.samePlace.standsIn
  | item shape source mem => exact .inl (Request.standsIn_item source mem)
  | probe shape source => exact .inl (Request.standsIn_part (eq_of_inspectable? source))
  | @field p record field source path shape matching within mem supplied reading =>
    obtain ⟨rfl, rfl⟩ := of_readField_eq_translate reading
    cases hsource : field.source with
    | key key =>
      rw [Field.sourceIn, Field.stepKey, hsource]
      exact .inl (Request.standsIn_part (matchRecord_eq_ok_iff.mp matching).1)
    | extract e =>
      exact .inr ⟨.field shape matching within mem supplied reading,
        p, record, field, e, shape, mem, supplied, hsource, rfl⟩

/-- Each step of a run goes on from the path before. -/
theorem Asks.extends (h : reg.Asks limit r s) : ∃ keys, r.Extends keys s := by
  rcases h.standsIn_or_extracts with ⟨keys, hkeys, -⟩ | ⟨-, p, record, field, e, -, -, -, -, rfl⟩
  · exact ⟨keys, hkeys⟩
  · exact ⟨[.field field.stepKey], rfl⟩

theorem Reaches.extends (h : reg.Reaches limit r s) : ∃ keys, r.Extends keys s := by
  induction h with
  | refl => exact ⟨[], (List.append_nil _).symm⟩
  | tail _ hstep ih =>
    obtain ⟨keys, hkeys⟩ := ih
    obtain ⟨more, hmore⟩ := hstep.extends
    exact ⟨keys ++ more, hkeys.trans hmore⟩

/-- A request comes behind a field whose value is made from a whole record. -/
def BehindExtraction (reg : Registry) (limit : Nat) (root s : Request) : Prop :=
  ∃ r t, reg.Reaches limit root r ∧ reg.Extracts limit r t ∧ reg.Reaches limit t s

/-- Every request of a run stands in the source, but for those behind a value that is made from
a record. -/
theorem Reaches.standsIn_or_behindExtraction (h : reg.Reaches limit r s) :
    s.StandsIn r ∨ reg.BehindExtraction limit r s := by
  induction h with
  | refl => exact .inl (.refl r)
  | tail hrun hstep ih =>
    rcases ih with hstands | ⟨t, u, ht, hextracts, hu⟩
    · rcases hstep.standsIn_or_extracts with hstep | hextracts
      · exact .inl (hstands.trans hstep)
      · exact .inr ⟨_, _, hrun, hextracts, .refl⟩
    · exact .inr ⟨t, u, ht, hextracts, hu.tail hstep⟩

theorem not_behindExtraction_of_readsKeys (hkeys : reg.ReadsKeys) :
    ¬ reg.BehindExtraction limit r s := by
  rintro ⟨t, u, -, ⟨-, p, record, field, e, hshape, hmem, hcomp, hsource, -⟩, -⟩
  obtain ⟨key, hkey⟩ := hkeys hshape hmem hcomp
  rw [hsource] at hkey
  cases hkey

/-! ### Places of failures -/

/-- A failure is raised at a place that can be reached in the source of its request. -/
theorem Raises.located (h : reg.Raises limit s e) :
    ∃ place keys, e.path? = some place ∧ place.keys = s.path.keys ++ keys ∧
      (Json.follow s.source keys).isSome = true := by
  have hhere : ∃ keys, s.path.keys = s.path.keys ++ keys ∧
      (Json.follow s.source keys).isSome = true :=
    ⟨[], (List.append_nil _).symm, by rw [Json.follow_nil]; rfl⟩
  cases h with
  | mismatch => exact ⟨s.path, hhere.imp fun _ h => ⟨rfl, h⟩⟩
  | exhausted => exact ⟨s.path, hhere.imp fun _ h => ⟨rfl, h⟩⟩
  | literal => exact ⟨s.path, hhere.imp fun _ h => ⟨rfl, h⟩⟩
  | limit => exact ⟨s.path, hhere.imp fun _ h => ⟨rfl, h⟩⟩
  | @item items item i source mem =>
    refine ⟨s.path.index i, [.index i], rfl, rfl, ?_⟩
    rw [source, Json.follow_index mem, Json.follow_nil]
    rfl
  | @preset p record field ready shape source =>
    refine ⟨s.path.field ready.key, [.field ready.key], rfl, rfl, ?_⟩
    rw [source, Json.follow_field, Json.follow_nil]
    rfl

/-- A failure is at or below the place that was asked for. -/
theorem extends_of_answer_eq_error (h : reg.answer limit r = .error e) :
    ∃ place keys, e.path? = some place ∧ place.keys = r.path.keys ++ keys := by
  obtain ⟨s, hrun, hraises⟩ := exists_raises r h
  obtain ⟨keys, hkeys⟩ := hrun.extends
  obtain ⟨place, more, hplace, hmore, -⟩ := hraises.located
  exact ⟨place, keys ++ more, hplace, by rw [hmore, hkeys, List.append_assoc]⟩

/-- A failure of a field is below the place of its record. -/
theorem extends_of_answerField_eq_error {record : Json.Record} {field : Field}
    (h : reg.answerField limit r record field = .error e) :
    ∃ place key keys, e.path? = some place ∧
      place.keys = r.path.keys ++ .field key :: keys := by
  rcases of_answerField_eq_error h with ⟨ready, -, -, -, rfl⟩ | ⟨source, path, hreading, hpart⟩
  · exact ⟨_, ready.key, [], rfl, rfl⟩
  · obtain ⟨-, rfl⟩ := of_readField_eq_translate hreading
    obtain ⟨place, keys, hplace, hkeys⟩ := extends_of_answer_eq_error hpart
    refine ⟨place, field.stepKey, keys, hplace, hkeys.trans ?_⟩
    show (r.path.keys ++ [.field field.stepKey]) ++ keys = _
    rw [List.append_assoc]
    rfl

/-- Where no field is made from a whole record, the path of a failure begins with the root and
can be followed from there in the source; only its last step may name a key that is missing.
In every registry, a failure is at or below the place that was asked for, and that of a field
is strictly below the place of its record. -/
theorem failure_located (reg : Registry) (limit : Nat) :
    (reg.ReadsKeys → ∀ (id : TypeId) (source : Json) (e : TranslationError) (place : Path),
      reg.translate limit id source = .error e → e.path? = some place →
      ∃ keys, place.keys = .field "root" :: keys ∧
        (Json.follow (some source) keys).isSome = true) ∧
    (∀ (r : Request) (e : TranslationError), reg.answer limit r = .error e →
      ∃ place, e.path? = some place ∧ place.startsWith r.path = true) ∧
    ∀ (r : Request) (record : Json.Record) (field : Field) (e : TranslationError),
      reg.answerField limit r record field = .error e →
      ∃ place, e.path? = some place ∧ place.startsWith r.path = true ∧
        r.path.depth < place.depth := by
  refine ⟨?_, ?_, ?_⟩
  · intro hkeys id source e place he hplace
    rw [translate_eq] at he
    split at he
    · -- The place of the request that raises the failure is followed first, then what the failure
      -- adds.
      obtain ⟨s, hrun, hraises⟩ := exists_raises _ he
      obtain ⟨keys, hpath, hfollow⟩ :=
        hrun.standsIn_or_behindExtraction.resolve_right (not_behindExtraction_of_readsKeys hkeys)
      obtain ⟨place', more, hplace', hmore, hsome⟩ := hraises.located
      obtain rfl : place' = place := Option.some.inj (hplace'.symm.trans hplace)
      refine ⟨keys ++ more, ?_, ?_⟩
      · rw [hmore, hpath, List.append_assoc]
        rfl
      · have happend := Json.follow_append hfollow more
        exact (congrArg Option.isSome happend).trans hsome
    · cases he
      cases hplace
  · intro r e he
    obtain ⟨place, keys, hplace, hkeys⟩ := extends_of_answer_eq_error he
    exact ⟨place, hplace, Path.startsWith_of_keys hkeys⟩
  · intro r record field e he
    obtain ⟨place, key, keys, hplace, hkeys⟩ := extends_of_answerField_eq_error he
    refine ⟨place, hplace, Path.startsWith_of_keys hkeys, ?_⟩
    rw [Path.depth_eq_length_keys, Path.depth_eq_length_keys, hkeys, List.length_append,
      List.length_cons]
    omega

/-! ### An item before a rest element -/

/-- Boxes of items with names. -/
def boxes : Builder := { declarations := [
  { name := "string", body := some (.primitive .string) },
  { name := "Item", body := some (.product {
      source := { tag := "Item" }, fields := [.required "name" ⟨0⟩] }) },
  { name := "Items", body := some (.array ⟨1⟩) },
  { name := "Box", body := some (.product {
      source := { tag := "Box" }, fields := [.required "items" ⟨2⟩] }) }] }

/-- An item without a name. -/
def unnamedItem : Json.Record := [("type", .str "Item")]

/-- A box with the item without a name in the second place, before a rest element. -/
def unnamedBox : Json := .obj [("type", .str "Box"), ("items", .arr [
  .obj [("type", .str "Item"), ("name", .str "a")], .obj unnamedItem,
  .obj [("type", .str "RestElement")]])]

/-- Whether a failure is at the end of the given steps. -/
def failsAt (keys : List PathKey) (e : TranslationError) : Bool :=
  match e.path? with
  | some place => place.keys = keys
  | none => false

theorem exists_of_failsAt {keys : List PathKey} (h : failsAt keys e = true) :
    ∃ place, e.path? = some place ∧ place.keys = keys := by
  unfold failsAt at h
  split at h
  · next place hplace => exact ⟨place, hplace, of_decide_eq_true h⟩
  · cases h

/-- The name is missing in the second item of the list; there is no such key, but the item is
there. As a field of the item, it is missing one step below the item. -/
theorem failure_located_unnamed : ∃ reg e place, boxes.freeze = .ok reg ∧ reg.ReadsKeys ∧
    reg.translate defaultLimit ⟨3⟩ unnamedBox = .error e ∧ e.path? = some place ∧
    place.keys = [.field "root", .field "items", .index 1, .field "name"] ∧
    (∃ keys, place.keys = .field "root" :: keys ∧
      (Json.follow (some unnamedBox) keys).isSome = true) ∧
    (∃ place', e.path? = some place' ∧ place'.startsWith .root = true) ∧
    ∃ e' place', reg.answerField defaultLimit (.whole ⟨1⟩ (.obj unnamedItem)) unnamedItem
        (.required "name" ⟨0⟩) = .error e' ∧ e'.path? = some place' ∧
      place'.startsWith .root = true ∧ Path.root.depth < place'.depth := by
  obtain ⟨reg, hreg, hcheck⟩ : ∃ reg, boxes.freeze = .ok reg ∧
      (reg.sourcesSatisfy isKey && (reg.contains ⟨3⟩ &&
        reg.failsWithin defaultLimit 6 ⟨3⟩ unnamedBox
          (failsAt [.field "root", .field "items", .index 1, .field "name"]))) = true :=
    exists_of_check (by decide +kernel)
  obtain ⟨hsources, hrest⟩ := Bool.and_eq_true_iff.mp hcheck
  obtain ⟨hid, hfails⟩ := Bool.and_eq_true_iff.mp hrest
  have hkeys : reg.ReadsKeys := readsKeys_of_sourcesSatisfy hsources
  obtain ⟨e, he, hat⟩ := exists_of_failsWithin hfails
  obtain ⟨place, hplace, hsteps⟩ := exists_of_failsAt hat
  obtain ⟨hwhole, hanswer, hfield⟩ := failure_located reg defaultLimit
  have hroot : reg.answer defaultLimit (.whole ⟨3⟩ unnamedBox) = .error e := by
    rwa [translate_eq, if_pos hid] at he
  have hstring : reg.shape ⟨0⟩ = .primitive .string := Builder.shape_of_freeze hreg ⟨0⟩
  have hname : reg.answerField defaultLimit (.whole ⟨1⟩ (.obj unnamedItem)) unnamedItem
      (.required "name" ⟨0⟩) = .error (reg.mismatch ⟨0⟩ (Path.root.field "name") none) :=
    (answer_primitive hstring).trans rfl
  obtain ⟨place', hplace', hstarts, hdepth⟩ := hfield _ _ _ _ hname
  exact ⟨reg, e, place, hreg, hkeys, he, hplace, hsteps, hwhole hkeys _ _ _ _ he hplace,
    hanswer _ _ hroot, _, place', hname, hplace', hstarts, hdepth⟩

end Registry

end TypedTree
