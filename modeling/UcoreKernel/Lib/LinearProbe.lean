import Mathlib.Tactic

/-!
Open addressing with linear probing: a key is looked for from its own cell on, around the table,
until the key or an empty cell is met.
-/

namespace UcoreKernel.LinearProbe

open Function List

variable {K : Type} [DecidableEq K] {n : ℕ} {h : K → ℕ} {t : ℕ → Option K} {key other : K}
  {d e i : ℕ}

/-- The cell `d` places behind `a`. -/
def slot (n a d : ℕ) : ℕ := (a + d) % n

lemma slot_lt (hn : 0 < n) (a d : ℕ) : slot n a d < n := Nat.mod_lt _ hn

/-- Different places of one round are different cells. -/
lemma slot_inj {a : ℕ} (hd : d < n) (he : e < n) (hEq : slot n a d = slot n a e) : d = e :=
  Nat.ModEq.eq_of_lt_of_lt (Nat.ModEq.add_left_cancel' a hEq) hd he

/-- Every cell is met in one round. -/
lemma exists_slot {a : ℕ} (hi : i < n) : ∃ d < n, slot n a d = i := by
  have hn : 0 < n := by omega
  refine ⟨(i + (n - a % n)) % n, Nat.mod_lt _ hn, ?_⟩
  have hle : a % n < n := Nat.mod_lt _ hn
  have hsum : a % n + (i + (n - a % n)) = i + n := by omega
  rw [slot, Nat.add_mod, Nat.mod_mod, Nat.add_mod_mod, hsum, Nat.add_mod_right, Nat.mod_eq_of_lt hi]

variable (n h) in
/-- A search ends at an empty cell and at the key. -/
def Stops (t : ℕ → Option K) (key : K) (d : ℕ) : Prop :=
  t (slot n (h key) d) = none ∨ t (slot n (h key) d) = some key

instance (t : ℕ → Option K) (key : K) : DecidablePred (Stops n h t key) := fun _ =>
  inferInstanceAs (Decidable (_ ∨ _))

variable (n h) in
/-- How far a search goes; `none` if it comes round. -/
def search (t : ℕ → Option K) (key : K) : Option ℕ :=
  (List.range n).find? fun d => Stops n h t key d

lemma search_eq_some : search n h t key = some d ↔ d < n ∧ Stops n h t key d ∧ ∀ e < d, ¬Stops n h t key e := by
  rw [search, find?_range_eq_some]
  simp [and_left_comm]

lemma search_eq_none : search n h t key = none ↔ ∀ d < n, ¬Stops n h t key d := by
  simp [search]

variable (n h) in
/-- The key sits `d` places behind its own cell, and a search for it gets there. -/
structure Placed (t : ℕ → Option K) (key : K) (d : ℕ) : Prop where
  lt : d < n
  here : t (slot n (h key) d) = some key
  before : ∀ e < d, t (slot n (h key) e) ≠ none ∧ t (slot n (h key) e) ≠ some key

variable (n h) in
/-- Every key of the table sits where a search for it ends. -/
def WellPlaced (t : ℕ → Option K) : Prop :=
  ∀ i < n, ∀ key, t i = some key → ∃ d, Placed n h t key d ∧ slot n (h key) d = i

/-- A search for a placed key finds it. -/
lemma Placed.search_eq (hp : Placed n h t key d) : search n h t key = some d :=
  search_eq_some.mpr ⟨hp.lt, .inr hp.here, fun e he hstop =>
    hstop.elim (hp.before e he).1 (hp.before e he).2⟩

/-- A key has one place. -/
lemma Placed.unique (hp : Placed n h t key d) (hp' : Placed n h t key e) : d = e :=
  Option.some.inj (hp.search_eq.symm.trans hp'.search_eq)

/-- A search that ends at the key has found its place. -/
lemma placed_of_search (hs : search n h t key = some d)
    (hhere : t (slot n (h key) d) = some key) : Placed n h t key d := by
  obtain ⟨hlt, -, hbefore⟩ := search_eq_some.mp hs
  exact ⟨hlt, hhere, fun e he => not_or.mp (hbefore e he)⟩

namespace WellPlaced

variable (hw : WellPlaced n h t)
include hw

/-- A key is in one cell at most. -/
lemma cell_unique {j : ℕ} (hi : i < n) (hj : j < n) (hti : t i = some key) (htj : t j = some key) : i = j := by
  obtain ⟨d, hp, rfl⟩ := hw i hi key hti
  obtain ⟨e, hp', rfl⟩ := hw j hj key htj
  rw [hp.unique hp']

/-- The keys of the table, cell by cell, are distinct. -/
lemma keys_nodup : ((range n).filterMap t).Nodup := by
  rw [List.Nodup, pairwise_filterMap]
  refine nodup_range.imp_of_mem fun {i j} hi hj hne k hk k' hk' hEq => hne ?_
  subst hEq
  exact hw.cell_unique (mem_range.mp hi) (mem_range.mp hj) hk hk'

/-- A key that is not in the table goes to the cell where the search for it ends. -/
lemma insert (hn : 0 < n) (habs : ∀ i < n, t i ≠ some key) (hs : search n h t key = some d) :
    WellPlaced n h (update t (slot n (h key) d) (some key)) := by
  obtain ⟨hlt, hstop, hbefore⟩ := search_eq_some.mp hs
  have hempty : t (slot n (h key) d) = none := hstop.resolve_right (habs _ (slot_lt hn ..))
  -- An occupied cell is not the one that is filled.
  have hkeep : ∀ j, t j ≠ none →
      update t (slot n (h key) d) (some key) j = t j := fun j hj =>
    update_of_ne (fun hEq : j = _ => hj (hEq ▸ hempty)) ..
  intro i hi k hk
  by_cases hEq : i = slot n (h key) d
  · rw [hEq, update_self] at hk
    cases hk
    refine ⟨d, ⟨hlt, update_self .., fun e he => ?_⟩, hEq.symm⟩
    obtain ⟨h1, h2⟩ := not_or.mp (hbefore e he)
    rw [hkeep _ h1]
    exact ⟨h1, h2⟩
  · rw [update_of_ne hEq] at hk
    obtain ⟨e, hp, rfl⟩ := hw i hi k hk
    refine ⟨e, ⟨hp.lt, ?_, fun e' he' => ?_⟩, rfl⟩
    · rw [hkeep _ (hp.here ▸ Option.some_ne_none k), hp.here]
    · rw [hkeep _ (hp.before e' he').1]
      exact hp.before e' he'

/-- A cell that no search for another key passes may be emptied. -/
lemma remove (hp : Placed n h t key d) (hfree : ∀ other e, other ≠ key → Placed n h t other e → ∀ e' < e,
      slot n (h other) e' ≠ slot n (h key) d) : WellPlaced n h (update t (slot n (h key) d) none) := by
  intro i hi k hk
  have hEq : i ≠ slot n (h key) d := by
    rintro rfl
    rw [update_self] at hk
    cases hk
  rw [update_of_ne hEq] at hk
  obtain ⟨e, hpk, rfl⟩ := hw i hi k hk
  have hne : k ≠ key := by
    rintro rfl
    exact hEq (by rw [hpk.unique hp])
  refine ⟨e, ⟨hpk.lt, ?_, fun e' he' => ?_⟩, rfl⟩
  · rw [update_of_ne hEq, hpk.here]
  · rw [update_of_ne (hfree k e hne hpk e' he')]
    exact hpk.before e' he'

end WellPlaced

/-- A search that passes an emptied cell ends there. -/
lemma search_of_passed (hp : Placed n h t other d) (he : e < d) (hEq : slot n (h other) e = i) :
    search n h (update t i none) other = some e := by
  have hlt : d < n := hp.lt
  refine search_eq_some.mpr ⟨by omega, .inl (by rw [hEq, update_self]), ?_⟩
  intro e' he' hstop
  have hne : slot n (h other) e' ≠ i := fun hi =>
    absurd (slot_inj (by omega) (by omega) (hi.trans hEq.symm)) (by omega)
  rw [Stops, update_of_ne hne] at hstop
  exact hstop.elim (hp.before e' (by omega)).1 (hp.before e' (by omega)).2

end UcoreKernel.LinearProbe
