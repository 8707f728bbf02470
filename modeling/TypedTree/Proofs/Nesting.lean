/-
How deep JSON values are nested.

A translation counts objects, and the reader of texts counts arrays and objects. Main
statements:

* `Json.nesting` — how deep objects are nested;
* `Json.height` — how deep arrays and objects are nested;
* `Json.nesting_le_height` — the first is at most the second;
* `Json.height_le_of_read` — what a text is read as is nested at most as deep as texts may be.
-/
import TypedTree.Json.Reader
import TypedTree.Proofs.Traversal

namespace TypedTree

namespace Json

/-! ### Objects -/

mutual

/-- How deep objects are nested. -/
def nesting : Json → Nat
  | arr items => nestingItems items
  | obj entries => nestingEntries entries + 1
  | null | bool _ | num _ | str _ => 0

/-- How deep objects are nested in the items of a list. -/
def nestingItems : List Json → Nat
  | [] => 0
  | item :: rest => max (nesting item) (nestingItems rest)

/-- How deep objects are nested in the values of entries. -/
def nestingEntries : List (String × Json) → Nat
  | [] => 0
  | (_, value) :: rest => max (nesting value) (nestingEntries rest)

end

/-- How deep objects are nested in a value that may be missing. -/
def nesting? (source : Option Json) : Nat := (source.map nesting).getD 0

theorem nesting_le_of_mem {item : Json} {items : List Json} (h : item ∈ items) :
    item.nesting ≤ (arr items).nesting := by
  rw [nesting]
  induction items with
  | nil => cases h
  | cons other items ih =>
    rw [nestingItems]
    rcases List.mem_cons.mp h with rfl | h
    · exact Nat.le_max_left _ _
    · exact Nat.le_trans (ih h) (Nat.le_max_right _ _)

theorem nesting_get?_lt (record : Record) (key : String) :
    nesting? (record.get? key) < (obj record).nesting := by
  rw [nesting]
  refine Nat.lt_succ_of_le ?_
  induction record with
  | nil => exact Nat.zero_le _
  | cons entry record ih =>
    obtain ⟨k, v⟩ := entry
    rw [Record.get?, List.lookup_cons, nestingEntries]
    split
    · exact Nat.le_max_left _ _
    · exact Nat.le_trans ih (Nat.le_max_right _ _)

/-! ### Arrays and objects -/

mutual

/-- How deep arrays and objects are nested. -/
def height : Json → Nat
  | arr items => heightItems items + 1
  | obj entries => heightEntries entries + 1
  | null | bool _ | num _ | str _ => 0

/-- How deep arrays and objects are nested in the items of a list. -/
def heightItems : List Json → Nat
  | [] => 0
  | item :: rest => max (height item) (heightItems rest)

/-- How deep arrays and objects are nested in the values of entries. -/
def heightEntries : List (String × Json) → Nat
  | [] => 0
  | (_, value) :: rest => max (height value) (heightEntries rest)

end

mutual

/-- Objects alone are nested no deeper than arrays and objects are. -/
theorem nesting_le_height : ∀ v : Json, v.nesting ≤ v.height
  | arr items => by
    rw [nesting, height]
    exact Nat.le_succ_of_le (nestingItems_le_heightItems items)
  | obj entries => by
    rw [nesting, height]
    exact Nat.succ_le_succ (nestingEntries_le_heightEntries entries)
  | null | bool _ | num _ | str _ => Nat.le_refl _

theorem nestingItems_le_heightItems : ∀ items, nestingItems items ≤ heightItems items
  | [] => Nat.le_refl _
  | item :: rest => by
    have hitem := nesting_le_height item
    have hrest := nestingItems_le_heightItems rest
    rw [nestingItems, heightItems]
    omega

theorem nestingEntries_le_heightEntries : ∀ entries, nestingEntries entries ≤ heightEntries entries
  | [] => Nat.le_refl _
  | (_, value) :: rest => by
    have hvalue := nesting_le_height value
    have hrest := nestingEntries_le_heightEntries rest
    rw [nestingEntries, heightEntries]
    omega

end

/-! ### Values of texts -/

/-- Entries that are merged do not get higher. -/
theorem heightEntries_set_le (entries : List (String × Json)) (key : String) (value : Json) :
    heightEntries (Entries.set entries key value) ≤ max (heightEntries entries) value.height := by
  induction entries with
  | nil => simp [Entries.set, heightEntries]
  | cons entry entries ih =>
    obtain ⟨k, v⟩ := entry
    rw [Entries.set]
    split
    · rw [heightEntries, heightEntries]
      omega
    · rw [heightEntries, heightEntries]
      omega

theorem heightEntries_extend_le (extra entries : List (String × Json)) :
    heightEntries (Entries.extend entries extra) ≤
      max (heightEntries entries) (heightEntries extra) := by
  induction extra generalizing entries with
  | nil => exact Nat.le_max_left _ _
  | cons entry extra ih =>
    obtain ⟨k, v⟩ := entry
    have hset : heightEntries (Entries.set entries k v) ≤ max (heightEntries entries) v.height :=
      heightEntries_set_le entries k v
    have hrest : heightEntries (Entries.extend (Entries.set entries k v) extra) ≤ _ := ih _
    rw [heightEntries]
    show heightEntries (Entries.extend (Entries.set entries k v) extra) ≤ _
    omega

namespace Form

mutual

/-- A form is read as a value that is nested no deeper than was allowed. -/
theorem height_le_of_value : ∀ {depth : Nat} {form : Form} {v : Json},
    form.value depth = .ok v → v.height ≤ depth
  | _, null, _, h | _, bool _, _, h => by
    cases h
    exact Nat.zero_le _
  | _, number lexeme, v, h => by
    obtain ⟨n, -, heq⟩ := bind_eq_ok_iff.mp h
    cases heq
    exact Nat.zero_le _
  | _, string lexeme, v, h => by
    obtain ⟨s, -, heq⟩ := bind_eq_ok_iff.mp h
    cases heq
    exact Nat.zero_le _
  | 0, array _ _, v, h | 0, object _ _, v, h => by cases h
  | depth + 1, array items closed, v, h => by
    obtain ⟨values, hvalues, h⟩ := bind_eq_ok_iff.mp h
    obtain ⟨-, -, h⟩ := bind_eq_ok_iff.mp h
    cases h
    exact Nat.succ_le_succ (heightItems_le_of_itemValues hvalues)
  | depth + 1, object entries closed, v, h => by
    obtain ⟨values, hvalues, h⟩ := bind_eq_ok_iff.mp h
    obtain ⟨-, -, h⟩ := bind_eq_ok_iff.mp h
    cases h
    have hmerged : heightEntries (Entries.ofList values) ≤ heightEntries values :=
      Nat.le_trans (heightEntries_extend_le values [])
        (Nat.max_le.mpr ⟨Nat.zero_le _, Nat.le_refl _⟩)
    exact Nat.succ_le_succ
      (Nat.le_trans hmerged (heightEntries_le_of_entryValues hvalues))
  | _, broken _, _, h => by cases h

theorem heightItems_le_of_itemValues : ∀ {depth : Nat} {items : List Form} {values : List Json},
    itemValues depth items = .ok values → heightItems values ≤ depth
  | _, [], _, h => by
    cases h
    exact Nat.zero_le _
  | _, item :: rest, _, h => by
    obtain ⟨v, hv, h⟩ := bind_eq_ok_iff.mp h
    obtain ⟨vs, hvs, h⟩ := bind_eq_ok_iff.mp h
    cases h
    exact Nat.max_le.mpr ⟨height_le_of_value hv, heightItems_le_of_itemValues hvs⟩

theorem heightEntries_le_of_entryValues : ∀ {depth : Nat}
    {entries : List (Lexeme String × Form)} {values : List (String × Json)},
    entryValues depth entries = .ok values → heightEntries values ≤ depth
  | _, [], _, h => by
    cases h
    exact Nat.zero_le _
  | _, (key, item) :: rest, _, h => by
    obtain ⟨k, -, h⟩ := bind_eq_ok_iff.mp h
    obtain ⟨v, hv, h⟩ := bind_eq_ok_iff.mp h
    obtain ⟨vs, hvs, h⟩ := bind_eq_ok_iff.mp h
    cases h
    exact Nat.max_le.mpr ⟨height_le_of_value hv, heightEntries_le_of_entryValues hvs⟩

end

end Form

/-- What a text is read as is nested at most as deep as texts may be. -/
theorem height_le_of_read {text : String} {v : Json} (h : read text = .ok v) :
    v.height ≤ nestingLimit := by
  unfold read readWithin at h
  obtain ⟨v', hv, h⟩ := bind_eq_ok_iff.mp h
  obtain ⟨-, -, h⟩ := bind_eq_ok_iff.mp h
  cases h
  exact Form.height_le_of_value hv

end Json

end TypedTree
