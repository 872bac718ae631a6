import Mathlib.Tactic

/-!
Lists threaded through an array: cell `i` holds the index of the cell behind it, and a mark that
is no index ends the list.
-/

namespace UcoreKernel

open Function List

variable {next next' : ℕ → ℕ} {stop h i j : ℕ} {l : List ℕ}

/-- From `h`, the cells of the array lead through `l` to the mark. -/
def IndexChain (next : ℕ → ℕ) (stop : ℕ) : ℕ → List ℕ → Prop
  | h, [] => h = stop
  | h, i :: l => h = i ∧ i ≠ stop ∧ IndexChain next stop (next i) l

namespace IndexChain

section

variable (hc : IndexChain next stop h l)
include hc

/-- The list is empty exactly when it begins with the mark. -/
lemma eq_nil_iff : l = [] ↔ h = stop := by
  cases l with
  | nil => exact iff_of_true rfl hc
  | cons i l => exact iff_of_false (cons_ne_nil i l) fun hEq => hc.2.1 (hc.1.symm.trans hEq)

/-- Only the cells of the list matter. -/
lemma congr (hEq : ∀ i ∈ l, next' i = next i) : IndexChain next' stop h l := by
  induction l generalizing h with
  | nil => exact hc
  | cons i l ih =>
    obtain ⟨rfl, hi, hrest⟩ := hc
    refine ⟨rfl, hi, ?_⟩
    grind

/-- A cell outside the list goes to the front. -/
lemma push (hi : i ∉ l) (hstop : i ≠ stop) : IndexChain (update next i h) stop i (i :: l) := by
  refine ⟨rfl, hstop, ?_⟩
  rw [update_self]
  exact hc.congr fun j hj => update_of_ne (fun hEq : j = i => hi (hEq ▸ hj)) ..

end

/-- The last two cells of a list: the one before points to the last, and the last to the mark. -/
lemma last_two (hc : IndexChain next stop h (l ++ [i, j])) :
    next i = j ∧ next j = stop ∧ i ≠ stop ∧ j ≠ stop := by
  induction l generalizing h with
  | nil =>
    obtain ⟨rfl, hi, rfl, hj, hstop⟩ := hc
    exact ⟨rfl, hstop, hi, hj⟩
  | cons k l ih => exact ih hc.2.2

/-- The list ends one cell earlier when that points to the mark. -/
lemma dropLast (hc : IndexChain next stop h (l ++ [i, j])) (hi : i ∉ l)
    (hj : j ∉ l) (hEq : ∀ k, k ≠ i → k ≠ j → next' k = next k) (hstop : next' i = stop) :
    IndexChain next' stop h (l ++ [i]) := by
  induction l generalizing h with
  | nil => exact ⟨hc.1, hc.2.1, hstop⟩
  | cons k l ih =>
    obtain ⟨rfl, hk, hrest⟩ := hc
    refine ⟨rfl, hk, ?_⟩
    rw [hEq h (fun hEq => hi (hEq ▸ (.head _))) fun hEq => hj (hEq ▸ (.head _))]
    exact ih hrest (fun hmem => hi (.tail _ hmem)) fun hmem => hj (.tail _ hmem)

/-- The list is extended by a cell when its last cell points to that one. -/
lemma concat (hc : IndexChain next stop h (l ++ [i])) (hi : i ∉ l) (hj : j ∉ l)
    (hjstop : j ≠ stop) (hEq : ∀ k, k ≠ i → k ≠ j → next' k = next k) (hnext : next' i = j)
    (hstop : next' j = stop) : IndexChain next' stop h (l ++ [i, j]) := by
  induction l generalizing h with
  | nil =>
    refine ⟨hc.1, hc.2.1, hnext, hjstop, hstop⟩
  | cons k l ih =>
    obtain ⟨rfl, hk, hrest⟩ := hc
    refine ⟨rfl, hk, ?_⟩
    rw [hEq h (fun hEq => hi (hEq ▸ (.head _))) fun hEq => hj (hEq ▸ (.head _))]
    exact ih hrest (fun hmem => hi (.tail _ hmem)) fun hmem => hj (.tail _ hmem)

/-- There is one list from each cell. -/
lemma unique {l' : List ℕ} (hc : IndexChain next stop h l) (hc' : IndexChain next stop h l') : l = l' := by
  induction l generalizing h l' with
  | nil => exact ((hc'.eq_nil_iff).mpr hc).symm
  | cons i l ih =>
    cases l' with
    | nil => exact (hc.eq_nil_iff).mpr hc'
    | cons j l' =>
      obtain ⟨rfl, -, hrest⟩ := hc
      obtain ⟨rfl, -, hrest'⟩ := hc'
      rw [ih hrest hrest']

end IndexChain

/-- The walk from `cur` to the first cell with a property, or to the mark; at most `fuel` cells are
looked at. -/
def chainSearch (next : ℕ → ℕ) (stop : ℕ) (p : ℕ → Bool) : ℕ → ℕ → ℕ
  | 0, _ => stop
  | fuel + 1, cur =>
    if cur = stop then stop
    else if p cur then cur
    else chainSearch next stop p fuel (next cur)

/-- The walk finds the first cell of the list that has the property. -/
lemma IndexChain.search_eq {p : ℕ → Bool} {fuel : ℕ} (hc : IndexChain next stop h l)
    (hfuel : l.length ≤ fuel) : chainSearch next stop p fuel h = (l.find? p).getD stop := by
  induction l generalizing h fuel with
  | nil =>
    obtain rfl := hc
    cases fuel with
    | zero => rfl
    | succ fuel => simp [chainSearch]
  | cons i l ih =>
    obtain ⟨rfl, hi, hrest⟩ := hc
    obtain ⟨fuel, rfl⟩ : ∃ n, fuel = n + 1 := ⟨fuel - 1, by rw [length_cons] at hfuel; omega⟩
    grind [chainSearch]

/-- A stretch of the array in which each cell holds its successor and the last one the mark. -/
lemma indexChain_range' {n k m : ℕ} (hk : k + m = n) (hm : 0 < m)
    (hstop : ∀ i < n, i ≠ stop) (hnext : ∀ i, k ≤ i → i < n → next i = if i = n - 1 then stop else i + 1) :
    IndexChain next stop k (range' k m) := by
  induction m generalizing k with
  | zero => omega
  | succ m ih =>
    refine ⟨rfl, hstop k (by omega), ?_⟩
    rw [hnext k le_rfl (by omega)]
    obtain rfl | hm' := eq_or_ne m 0
    · rw [if_pos (by omega)]
      rfl
    · grind

end UcoreKernel
