/-
Entries under unique keys.

Main statements:

* `Entries.lookup_set`, `Entries.lookup_erase` — a value that is put under a key is found there, one
  that is taken away is not, and nothing else is touched;
* `Entries.nodup_keys_ofList` — no key has two entries;
* `Entries.lookup_extend_of_mem`, `Entries.lookup_extend_of_not_mem`, `Entries.lookup_extend` —
  look-up after further entries were put in, and `Entries.keys_extend` — the keys that are there
  then.
-/
import TypedTree.Entries
import TypedTree.Proofs.Traversal

namespace TypedTree

namespace Entries

variable {α : Type}

theorem lookup_set (l : List (String × α)) (key key' : String) (value : α) :
    (set l key value).lookup key' = if key' = key then some value else l.lookup key' := by
  induction l with
  | nil =>
    rw [set, List.lookup_cons]
    by_cases h : key' = key
    · simp [h]
    · simp [h, beq_false_of_ne h]
  | cons entry l ih =>
    obtain ⟨k, v⟩ := entry
    rw [set]
    by_cases hk : k = key
    · rw [if_pos hk, List.lookup_cons, List.lookup_cons, hk]
      by_cases h : key' = key
      · simp [h]
      · simp [h, beq_false_of_ne h]
    · rw [if_neg hk, List.lookup_cons, List.lookup_cons, ih]
      by_cases h : key' = key
      · simp [h, beq_false_of_ne (Ne.symm hk)]
      · simp [h]

/-- The entries without what stands under a key. -/
def erase (l : List (String × α)) (key : String) : List (String × α) := l.filter (·.1 ≠ key)

theorem lookup_erase (l : List (String × α)) (key key' : String) :
    (erase l key).lookup key' = if key' = key then none else l.lookup key' := by
  induction l with
  | nil => simp [erase]
  | cons entry l ih =>
    obtain ⟨k, v⟩ := entry
    rw [erase] at ih ⊢
    by_cases hk : k = key
    · rw [List.filter_cons_of_neg (by simp [hk]), ih, List.lookup_cons, hk]
      by_cases h : key' = key
      · rw [if_pos h, if_pos h]
      · rw [if_neg h, if_neg h, beq_false_of_ne h]
    · rw [List.filter_cons_of_pos (by simp [hk]), List.lookup_cons, List.lookup_cons, ih]
      by_cases h : key' = key
      · rw [if_pos h, if_pos h, h, beq_false_of_ne (Ne.symm hk)]
      · rw [if_neg h, if_neg h]

theorem keys_set (l : List (String × α)) (key : String) (value : α) :
    (set l key value).map (·.1) =
      if key ∈ l.map (·.1) then l.map (·.1) else l.map (·.1) ++ [key] := by
  induction l with
  | nil => simp [set]
  | cons entry l ih =>
    obtain ⟨k, v⟩ := entry
    rw [set]
    by_cases hk : k = key
    · simp [hk]
    · have hne : key ≠ k := Ne.symm hk
      rw [if_neg hk, List.map_cons, ih, List.map_cons]
      by_cases hmem : key ∈ l.map (·.1) <;> simp [hmem, hne]

theorem nodup_keys_set {l : List (String × α)} (h : (l.map (·.1)).Nodup) (key : String)
    (value : α) : ((set l key value).map (·.1)).Nodup := by
  rw [keys_set]
  split
  · exact h
  · next hnot =>
    refine List.nodup_append.mpr ⟨h, by simp, fun a ha b hb => ?_⟩
    rw [List.mem_singleton.mp hb]
    rintro rfl
    exact hnot ha

theorem nodup_keys_ofList (entries : List (String × α)) :
    ((ofList entries).map (·.1)).Nodup := by
  have hextend : ∀ (extra l : List (String × α)), (l.map (·.1)).Nodup →
      ((extend l extra).map (·.1)).Nodup := by
    intro extra
    induction extra with
    | nil => exact fun _ h => h
    | cons entry extra ih => exact fun l h => ih _ (nodup_keys_set h _ _)
  exact hextend entries [] List.nodup_nil

theorem mem_of_mem_set {key : String} {value : α} {entry : String × α} :
    ∀ {l : List (String × α)}, entry ∈ set l key value → entry = (key, value) ∨ entry ∈ l
  | [], h => .inl (List.mem_singleton.mp h)
  | (k, v) :: l, h => by
    rw [set] at h
    split at h
    · rcases List.mem_cons.mp h with rfl | h
      · next hk => exact .inl (by rw [hk])
      · exact .inr (List.mem_cons_of_mem _ h)
    · rcases List.mem_cons.mp h with rfl | h
      · exact .inr List.mem_cons_self
      · exact (mem_of_mem_set h).imp_right (List.mem_cons_of_mem _)

theorem mem_of_mem_ofList {entries : List (String × α)} {entry : String × α}
    (h : entry ∈ ofList entries) : entry ∈ entries := by
  have hextend : ∀ (extra l : List (String × α)), entry ∈ extend l extra →
      entry ∈ l ∨ entry ∈ extra := by
    intro extra
    induction extra with
    | nil => exact fun _ h => .inl h
    | cons first extra ih =>
      intro l h
      rcases ih _ h with hset | hextra
      · exact (mem_of_mem_set hset).elim (fun heq => .inr (by simp [heq])) .inl
      · exact .inr (List.mem_cons_of_mem _ hextra)
  exact (hextend entries [] h).resolve_left List.not_mem_nil

/-! ### Further entries -/

/-- Keys that are not among the further ones keep what they have. -/
theorem lookup_extend_of_not_mem {extra : List (String × α)} {key : String} :
    ∀ {l : List (String × α)}, key ∉ extra.map (·.1) →
      (extend l extra).lookup key = l.lookup key := by
  induction extra with
  | nil => exact fun _ => rfl
  | cons entry extra ih =>
    intro l hkey
    obtain ⟨hne, hkey⟩ := List.ne_and_not_mem_of_not_mem_cons hkey
    have hrest : (extend l (entry :: extra)).lookup key =
        (set l entry.1 entry.2).lookup key := ih hkey
    rw [hrest, lookup_set, if_neg hne]

/-- Each of the further entries is found, if no key is given twice. -/
theorem lookup_extend_of_mem {extra : List (String × α)} {key : String} {value : α} :
    ∀ {l : List (String × α)}, (extra.map (·.1)).Nodup → (key, value) ∈ extra →
      (extend l extra).lookup key = some value := by
  induction extra with
  | nil => exact fun _ hmem => nomatch hmem
  | cons entry extra ih =>
    intro l hnodup hmem
    obtain ⟨hentry, hnodup⟩ := List.nodup_cons.mp hnodup
    rcases List.mem_cons.mp hmem with rfl | hmem
    · have hrest : (extend l ((key, value) :: extra)).lookup key =
          (set l key value).lookup key := lookup_extend_of_not_mem hentry
      rw [hrest, lookup_set, if_pos rfl]
    · exact ih hnodup hmem

/-- Further entries come before those that were there. -/
theorem lookup_extend {l extra : List (String × α)} (h : (extra.map (·.1)).Nodup) (key : String) :
    (extend l extra).lookup key = (extra.lookup key).or (l.lookup key) := by
  cases hkey : extra.lookup key with
  | none =>
    refine lookup_extend_of_not_mem ?_
    rw [mem_keys_iff, hkey]
    simp
  | some value => exact lookup_extend_of_mem h (mem_of_lookup_eq_some hkey)

/-- Keys stay in their places, and those that are new come after them. -/
theorem keys_extend {extra : List (String × α)} : ∀ {l : List (String × α)},
    (extra.map (·.1)).Nodup → (extend l extra).map (·.1) =
      l.map (·.1) ++ (extra.map (·.1)).filter (· ∉ l.map (·.1)) := by
  induction extra with
  | nil =>
    intro l _
    simp [extend]
  | cons entry extra ih =>
    intro l hnodup
    obtain ⟨hentry, hnodup⟩ := List.nodup_cons.mp hnodup
    have hrest : (extend l (entry :: extra)).map (·.1) =
        (extend (set l entry.1 entry.2) extra).map (·.1) := rfl
    rw [hrest, ih hnodup, keys_set, List.map_cons]
    by_cases hmem : entry.1 ∈ l.map (·.1)
    · rw [if_pos hmem, List.filter_cons_of_neg (by simpa using hmem)]
    · -- The key itself does not come again among the others.
      have hothers : (extra.map (·.1)).filter (· ∉ l.map (·.1) ++ [entry.1]) =
          (extra.map (·.1)).filter (· ∉ l.map (·.1)) := by
        refine List.filter_congr fun key hkey => ?_
        have hne : key ≠ entry.1 := by
          rintro rfl
          exact hentry hkey
        simp [hne]
      rw [if_neg hmem, hothers, List.filter_cons_of_pos (by simpa using hmem), List.append_assoc]
      rfl

end Entries

end TypedTree
