/-
Lists traversed by computations that may fail.

A traversal either succeeds item by item or stops at an item that fails:

* `bind_eq_ok_iff` — a sequence of two computations succeeds if both do;
* `mapM_eq_ok_iff` — the results are those of the items, in their order;
* `exists_mapM_eq_ok_iff` — there are results if there is one for every item;
* `exists_of_mapM_eq_error` — the failure is that of an item;
* `foldlM_keeps` — what every step of a run keeps, the run keeps.
-/
import Mathlib.Data.List.Forall2

namespace TypedTree

variable {ε α β : Type}

/-! ### Lists related item by item -/

theorem exists_of_forall₂_of_mem_left {R : α → β → Prop} {l : List α} {m : List β}
    (h : List.Forall₂ R l m) {a : α} (ha : a ∈ l) : ∃ b ∈ m, R a b := by
  induction h with
  | nil => cases ha
  | cons hab _ ih =>
    rcases List.mem_cons.mp ha with rfl | ha
    · exact ⟨_, List.mem_cons_self, hab⟩
    · obtain ⟨b, hb, h⟩ := ih ha
      exact ⟨b, List.mem_cons_of_mem _ hb, h⟩

theorem exists_of_forall₂_of_mem_right {R : α → β → Prop} {l : List α} {m : List β}
    (h : List.Forall₂ R l m) {b : β} (hb : b ∈ m) : ∃ a ∈ l, R a b := by
  obtain ⟨a, ha, h⟩ := exists_of_forall₂_of_mem_left h.flip hb
  exact ⟨a, ha, h⟩

theorem exists_forall₂_of_mem {R : α → β → Prop} {l : List α} (h : ∀ a ∈ l, ∃ b, R a b) :
    ∃ m, List.Forall₂ R l m := by
  induction l with
  | nil => exact ⟨[], .nil⟩
  | cons a l ih =>
    obtain ⟨⟨b, hb⟩, hl⟩ := List.forall_mem_cons.mp h
    obtain ⟨m, hm⟩ := ih hl
    exact ⟨b :: m, .cons hb hm⟩

theorem forall₂_imp_of_mem_left {R S : α → β → Prop} {l : List α} {m : List β}
    (h : ∀ a b, a ∈ l → R a b → S a b) (hR : List.Forall₂ R l m) : List.Forall₂ S l m := by
  induction hR with
  | nil => exact .nil
  | cons hab _ ih =>
    exact .cons (h _ _ List.mem_cons_self hab) (ih fun a b ha => h a b (List.mem_cons_of_mem _ ha))

theorem forall₂_trans {γ : Type} {R : α → β → Prop} {S : β → γ → Prop} {T : α → γ → Prop}
    (hT : ∀ {a b c}, R a b → S b c → T a c) {l : List α} {m : List β} {n : List γ}
    (h : List.Forall₂ R l m) (h' : List.Forall₂ S m n) : List.Forall₂ T l n := by
  induction h generalizing n with
  | nil =>
    cases h'
    exact .nil
  | cons hab _ ih =>
    cases h' with
    | cons hbc h' => exact .cons (hT hab hbc) (ih h')

theorem forall₂_iff_map_eq_map {γ : Type} {f : α → γ} {g : β → γ} {l : List α} {m : List β} :
    List.Forall₂ (fun a b => f a = g b) l m ↔ l.map f = m.map g := by
  rw [← List.forall₂_eq_eq_eq, List.forall₂_map_left_iff, List.forall₂_map_right_iff]

theorem forall₂_zipIdx_of_map_eq {f : α → β} {l m : List α} (h : l.map f = m.map f) :
    List.Forall₂ (fun x y => f x.1 = f y.1 ∧ x.2 = y.2) l.zipIdx m.zipIdx := by
  have hmap : l.zipIdx.map (Prod.map f id) = m.zipIdx.map (Prod.map f id) := by
    rw [← List.zipIdx_map, ← List.zipIdx_map, h]
  exact (forall₂_iff_map_eq_map.mpr hmap).imp fun _ _ hxy => Prod.ext_iff.mp hxy

theorem forall_mem_iff_of_forall₂ {R : α → β → Prop} {P : α → Prop} {Q : β → Prop} {l : List α}
    {m : List β} (h : List.Forall₂ R l m) (hiff : ∀ a b, a ∈ l → R a b → (P a ↔ Q b)) :
    (∀ a ∈ l, P a) ↔ ∀ b ∈ m, Q b := by
  induction h with
  | nil => simp
  | cons hab _ ih =>
    rw [List.forall_mem_cons, List.forall_mem_cons, hiff _ _ List.mem_cons_self hab,
      ih fun a b ha => hiff a b (List.mem_cons_of_mem _ ha)]

theorem exists_mem_iff_of_forall₂ {R : α → β → Prop} {P : α → Prop} {Q : β → Prop} {l : List α}
    {m : List β} (h : List.Forall₂ R l m) (hiff : ∀ a b, a ∈ l → R a b → (P a ↔ Q b)) :
    (∃ a ∈ l, P a) ↔ ∃ b ∈ m, Q b := by
  induction h with
  | nil => simp
  | cons hab _ ih =>
    rw [List.exists_mem_cons_iff, List.exists_mem_cons_iff, hiff _ _ List.mem_cons_self hab,
      ih fun a b ha => hiff a b (List.mem_cons_of_mem _ ha)]

theorem forall₂_getElem? {R : α → β → Prop} {l : List α} {m : List β} (h : List.Forall₂ R l m)
    {i : Nat} {a : α} {b : β} (ha : l[i]? = some a) (hb : m[i]? = some b) : R a b := by
  obtain ⟨hlt, rfl⟩ := List.getElem?_eq_some_iff.mp ha
  obtain ⟨hlt', rfl⟩ := List.getElem?_eq_some_iff.mp hb
  exact h.get hlt hlt'

/-- What is related to an item and its position stands at that position. -/
theorem exists_of_forall₂_zipIdx {R : α × Nat → β → Prop} {l : List α} {m : List β}
    (h : List.Forall₂ R l.zipIdx m) {i : Nat} {b : β} (hb : m[i]? = some b) :
    ∃ a, l[i]? = some a ∧ R (a, i) b := by
  obtain ⟨hlt, -⟩ := List.getElem?_eq_some_iff.mp hb
  have hlt' : i < l.length := by rwa [← h.length_eq, List.length_zipIdx] at hlt
  have ha : l[i]? = some l[i] := List.getElem?_eq_getElem hlt'
  refine ⟨l[i], ha, forall₂_getElem? h ?_ hb⟩
  rw [List.getElem?_zipIdx, ha, Option.map_some, Nat.zero_add]

/-! ### Tests over a list -/

theorem any_congr_of_mem {f g : α → Bool} {l : List α} (h : ∀ x ∈ l, f x = g x) :
    l.any f = l.any g := by
  rw [Bool.eq_iff_iff, List.any_eq_true, List.any_eq_true]
  exact exists_congr fun x => and_congr_right fun hx => by rw [h x hx]

theorem all_congr_of_mem {f g : α → Bool} {l : List α} (h : ∀ x ∈ l, f x = g x) :
    l.all f = l.all g := by
  rw [Bool.eq_iff_iff, List.all_eq_true, List.all_eq_true]
  exact forall_congr' fun x => forall_congr' fun hx => by rw [h x hx]

/-! ### Computations that may fail -/

theorem bind_eq_ok_iff {x : Except ε α} {f : α → Except ε β} {b : β} :
    (x >>= f) = .ok b ↔ ∃ a, x = .ok a ∧ f a = .ok b := by
  cases x with
  | error e => simp [bind, Except.bind]
  | ok a => simp [bind, Except.bind]

theorem mapM_eq_ok_iff {f : α → Except ε β} : ∀ {l : List α} {bs : List β},
    l.mapM f = .ok bs ↔ List.Forall₂ (fun a b => f a = .ok b) l bs := by
  intro l
  induction l with
  | nil =>
    intro bs
    cases bs <;> simp [pure, Except.pure]
  | cons a l ih =>
    intro bs
    rw [List.mapM_cons, bind_eq_ok_iff]
    constructor
    · rintro ⟨b, hb, h⟩
      obtain ⟨bs', hbs', h⟩ := bind_eq_ok_iff.mp h
      cases h
      exact .cons hb (ih.mp hbs')
    · intro h
      cases h with
      | cons hb hbs => exact ⟨_, hb, bind_eq_ok_iff.mpr ⟨_, ih.mpr hbs, rfl⟩⟩

/-- A traversal succeeds if it succeeds on every item. -/
theorem exists_mapM_eq_ok_iff {f : α → Except ε β} {l : List α} :
    (∃ bs, l.mapM f = .ok bs) ↔ ∀ a ∈ l, ∃ b, f a = .ok b := by
  constructor
  · rintro ⟨bs, h⟩ a ha
    obtain ⟨b, -, hb⟩ := exists_of_forall₂_of_mem_left (mapM_eq_ok_iff.mp h) ha
    exact ⟨b, hb⟩
  · intro h
    induction l with
    | nil => exact ⟨[], rfl⟩
    | cons a l ih =>
      obtain ⟨ha, hl⟩ := List.forall_mem_cons.mp h
      obtain ⟨b, hb⟩ := ha
      obtain ⟨bs, hbs⟩ := ih hl
      exact ⟨b :: bs, mapM_eq_ok_iff.mpr (.cons hb (mapM_eq_ok_iff.mp hbs))⟩

/-- Making something of a result does not fail. -/
theorem exists_bind_pure_eq_ok_iff {x : Except ε α} {g : α → β} :
    (∃ b, (x >>= fun a => pure (g a)) = .ok b) ↔ ∃ a, x = .ok a := by
  constructor
  · rintro ⟨b, h⟩
    obtain ⟨a, ha, -⟩ := bind_eq_ok_iff.mp h
    exact ⟨a, ha⟩
  · rintro ⟨a, ha⟩
    exact ⟨g a, bind_eq_ok_iff.mpr ⟨a, ha, rfl⟩⟩

theorem mapM_congr_of_mem {f g : α → Except ε β} : ∀ {l : List α},
    (∀ x ∈ l, f x = g x) → l.mapM f = l.mapM g := by
  intro l
  induction l with
  | nil => exact fun _ => rfl
  | cons x l ih =>
    intro h
    obtain ⟨hx, hl⟩ := List.forall_mem_cons.mp h
    rw [List.mapM_cons, List.mapM_cons, hx, ih hl]

theorem bind_eq_error_iff {x : Except ε α} {f : α → Except ε β} {e : ε} :
    (x >>= f) = .error e ↔ x = .error e ∨ ∃ a, x = .ok a ∧ f a = .error e := by
  cases x with
  | error e' => simp [bind, Except.bind]
  | ok a => simp [bind, Except.bind]

/-- A traversal fails with the failure of an item. -/
theorem exists_of_mapM_eq_error {f : α → Except ε β} {e : ε} : ∀ {l : List α},
    l.mapM f = .error e → ∃ a ∈ l, f a = .error e := by
  intro l
  induction l with
  | nil =>
    intro h
    cases h
  | cons a l ih =>
    intro h
    rw [List.mapM_cons] at h
    rcases bind_eq_error_iff.mp h with ha | ⟨b, -, h⟩
    · exact ⟨a, List.mem_cons_self, ha⟩
    · rcases bind_eq_error_iff.mp h with hl | ⟨bs, -, h⟩
      · obtain ⟨a', ha', hfail⟩ := ih hl
        exact ⟨a', List.mem_cons_of_mem _ ha', hfail⟩
      · cases h

theorem forM_eq_ok_iff {f : α → Except ε Unit} : ∀ {l : List α},
    l.forM f = .ok () ↔ ∀ a ∈ l, f a = .ok () := by
  intro l
  induction l with
  | nil => simp [pure, Except.pure]
  | cons a l ih =>
    rw [List.forM_eq_forM, List.forM_cons, bind_eq_ok_iff, List.forall_mem_cons, ← ih]
    constructor
    · rintro ⟨⟨⟩, ha, hl⟩
      exact ⟨ha, hl⟩
    · rintro ⟨ha, hl⟩
      exact ⟨(), ha, hl⟩

/-- A traversal without results fails with the failure of an item. -/
theorem exists_of_forM_eq_error {f : α → Except ε Unit} {e : ε} : ∀ {l : List α},
    l.forM f = .error e → ∃ a ∈ l, f a = .error e := by
  intro l
  induction l with
  | nil =>
    intro h
    cases h
  | cons a l ih =>
    intro h
    rw [List.forM_eq_forM, List.forM_cons] at h
    rcases bind_eq_error_iff.mp h with ha | ⟨-, -, hl⟩
    · exact ⟨a, List.mem_cons_self, ha⟩
    · obtain ⟨a', ha', hfail⟩ := ih hl
      exact ⟨a', List.mem_cons_of_mem _ ha', hfail⟩

/-- A run over a list fails with the failure of a step. -/
theorem exists_of_foldlM_eq_error {f : β → α → Except ε β} {e : ε} : ∀ {l : List α} {acc : β},
    l.foldlM f acc = .error e → ∃ a ∈ l, ∃ acc', f acc' a = .error e := by
  intro l
  induction l with
  | nil =>
    intro acc h
    cases h
  | cons a l ih =>
    intro acc h
    rw [List.foldlM_cons] at h
    rcases bind_eq_error_iff.mp h with ha | ⟨acc', -, hl⟩
    · exact ⟨a, List.mem_cons_self, acc, ha⟩
    · obtain ⟨a', ha', hfail⟩ := ih hl
      exact ⟨a', List.mem_cons_of_mem _ ha', hfail⟩

/-- What every step keeps, a run over a list keeps. -/
theorem foldlM_keeps {f : β → α → Except ε β} {P : β → Prop} : ∀ {l : List α} {acc acc' : β},
    (∀ a ∈ l, ∀ {acc acc'}, P acc → f acc a = .ok acc' → P acc') → P acc →
      l.foldlM f acc = .ok acc' → P acc' := by
  intro l
  induction l with
  | nil =>
    intro acc acc' _ hacc h
    cases h
    exact hacc
  | cons a l ih =>
    intro acc acc' hf hacc h
    obtain ⟨ha, hl⟩ := List.forall_mem_cons.mp hf
    rw [List.foldlM_cons] at h
    obtain ⟨mid, hmid, h⟩ := bind_eq_ok_iff.mp h
    exact ih hl (ha hacc hmid) h

theorem foldlM_congr_of_mem {f g : β → α → Except ε β} : ∀ {l : List α} {acc : β},
    (∀ a ∈ l, ∀ acc, f acc a = g acc a) → l.foldlM f acc = l.foldlM g acc := by
  intro l
  induction l with
  | nil => exact fun _ => rfl
  | cons a l ih =>
    intro acc h
    obtain ⟨ha, hl⟩ := List.forall_mem_cons.mp h
    rw [List.foldlM_cons, List.foldlM_cons, ha]
    exact congrArg _ (funext fun acc' => ih hl)

/-! ### Look-up -/

theorem mem_keys_iff {l : List (String × α)} {k : String} :
    k ∈ l.map (·.1) ↔ (l.lookup k).isSome = true := by
  induction l with
  | nil => simp
  | cons entry l ih =>
    rw [List.map_cons, List.mem_cons, ih, List.lookup_cons]
    by_cases h : k = entry.1
    · simp [h]
    · simp [h, beq_false_of_ne h]

theorem lookup_eq_some_of_mem {l : List (String × α)} (hl : (l.map (·.1)).Nodup) {k : String}
    {a : α} (h : (k, a) ∈ l) : l.lookup k = some a := by
  induction l with
  | nil => cases h
  | cons entry l ih =>
    obtain ⟨k', a'⟩ := entry
    obtain ⟨hk, hl⟩ := List.nodup_cons.mp hl
    rcases List.mem_cons.mp h with heq | hmem
    · cases heq
      exact List.lookup_cons_self
    · have hne : k ≠ k' := by
        rintro rfl
        exact hk (List.mem_map.mpr ⟨(k, a), hmem, rfl⟩)
      rw [List.lookup_cons, beq_false_of_ne hne]
      exact ih hl hmem

theorem mem_of_lookup_eq_some {l : List (String × α)} {k : String} {a : α}
    (h : l.lookup k = some a) : (k, a) ∈ l := by
  obtain ⟨before, after, rfl, -⟩ := List.lookup_eq_some_iff.mp h
  simp

theorem lookup_map_snd (f : α → β) (l : List (String × α)) (k : String) :
    (l.map fun entry => (entry.1, f entry.2)).lookup k = (l.lookup k).map f := by
  induction l with
  | nil => rfl
  | cons entry l ih =>
    rw [List.map_cons, List.lookup_cons, List.lookup_cons, ih]
    cases k == entry.1 <;> rfl

/-! ### Lists without repetitions -/

theorem mem_foldl_distinct [DecidableEq α] {l seen : List α} {a : α} :
    a ∈ l.foldl (fun seen b => if b ∈ seen then seen else seen ++ [b]) seen ↔ a ∈ seen ∨ a ∈ l := by
  induction l generalizing seen with
  | nil => simp
  | cons b l ih =>
    rw [List.foldl_cons, ih, List.mem_cons]
    by_cases hmem : b ∈ seen
    · rw [if_pos hmem]
      constructor
      · rintro (h | h)
        · exact .inl h
        · exact .inr (.inr h)
      · rintro (h | rfl | h)
        · exact .inl h
        · exact .inl hmem
        · exact .inr h
    · rw [if_neg hmem, List.mem_append, List.mem_singleton, or_assoc]

theorem nodup_foldl_distinct [DecidableEq α] {l seen : List α} (h : seen.Nodup) :
    (l.foldl (fun seen b => if b ∈ seen then seen else seen ++ [b]) seen).Nodup := by
  induction l generalizing seen with
  | nil => exact h
  | cons b l ih =>
    rw [List.foldl_cons]
    by_cases hmem : b ∈ seen
    · rw [if_pos hmem]
      exact ih h
    · rw [if_neg hmem]
      refine ih (List.nodup_append.mpr ⟨h, by simp, ?_⟩)
      intro x hx y hy
      rw [List.mem_singleton.mp hy]
      rintro rfl
      exact hmem hx

end TypedTree
