import Mathlib.Tactic

/-!
Delta-encoded lists.

A list of pairs `(x, d)` in which `d` is the distance of `x` from its predecessor, so that the
distance of `x` from the start is the sum of the entries up to it. The module is about lists
only: `dues` decodes the distances, and the three operations a timer queue needs, insertion,
removal and the passing of one unit, are described by what they do to the decoded list.
-/

namespace UcoreKernel.DeltaList

open List

variable {α : Type*} {l : List (α × ℕ)} {x : α} {p : α × ℕ} {b c e m n : ℕ}

/-- The decoded list: every entry with its distance from the start, `b` being the distance of
the start itself. -/
def dues (b : ℕ) : List (α × ℕ) → List (α × ℕ)
  | [] => []
  | (x, d) :: l => (x, b + d) :: dues (b + d) l

/-- The first distance, if there is one, is positive. -/
def HeadPos : List (α × ℕ) → Prop
  | [] => True
  | (_, d) :: _ => 0 < d

@[simp] lemma dues_nil (b : ℕ) : dues b ([] : List (α × ℕ)) = [] := rfl

@[simp] lemma dues_cons (b : ℕ) (x : α) (d : ℕ) (l : List (α × ℕ)) :
    dues b ((x, d) :: l) = (x, b + d) :: dues (b + d) l := rfl

/-- Decoding keeps the keys in their order. -/
lemma map_fst_dues (b : ℕ) (l : List (α × ℕ)) : (dues b l).map Prod.fst = l.map Prod.fst := by
  induction l generalizing b with
  | nil => rfl
  | cons p l ih => simp [dues, ih]

/-- No decoded entry lies before the start. -/
lemma le_of_mem_dues (h : (x, n) ∈ dues b l) : b ≤ n := by
  induction l generalizing b with
  | nil => simp at h
  | cons p l ih => grind [dues]

/-- Behind a positive first distance every decoded entry lies past the start. -/
lemma pos_of_mem_dues (hl : HeadPos l) (h : (x, n) ∈ dues 0 l) : 0 < n := by
  cases l with
  | nil => simp at h
  | cons p l => grind [dues, HeadPos, → le_of_mem_dues]

/-- Moving the start moves every decoded entry. -/
lemma mem_dues_add : (x, n + c) ∈ dues (b + c) l ↔ (x, n) ∈ dues b l := by
  induction l generalizing b with
  | nil => simp
  | cons p l ih =>
    have hstart : b + c + p.2 = b + p.2 + c := by omega
    simp only [dues, mem_cons, Prod.ext_iff, hstart, ih, add_right_cancel_iff]

/-- A key has a decoded entry exactly when it is in the list. -/
lemma exists_mem_dues : (∃ n, (x, n) ∈ dues b l) ↔ x ∈ l.map Prod.fst := by
  rw [← map_fst_dues b l]
  simp

/-- With distinct keys a key has one decoded entry. -/
lemma dues_unique (hl : (l.map Prod.fst).Nodup) (hm : (x, m) ∈ dues b l) (hn : (x, n) ∈ dues b l) : m = n := by
  induction l generalizing b with
  | nil => simp at hm
  | cons p l ih =>
    have hout : ∀ k, (p.1, k) ∉ dues (b + p.2) l := fun k hk =>
      hl.notMem (exists_mem_dues.mp ⟨k, hk⟩)
    grind [dues]

/-! ### Insertion -/

/-- Insert `x` at distance `e` from the start: walk past every entry whose distance does not
exceed what is left of `e`, and shorten the entry the new one is put before. -/
def insertAt (x : α) (e : ℕ) : List (α × ℕ) → List (α × ℕ)
  | [] => [(x, e)]
  | (y, d) :: l => if e < d then (x, e) :: (y, d - e) :: l else (y, d) :: insertAt x (e - d) l

/-- Insertion adds exactly the entry of `x` to the decoded list. -/
lemma mem_dues_insertAt : p ∈ dues b (insertAt x e l) ↔ p = (x, b + e) ∨ p ∈ dues b l := by
  induction l generalizing b e with
  | nil => simp [insertAt]
  | cons q l ih =>
    rw [insertAt]
    split_ifs with h
    · have hd : b + e + (q.2 - e) = b + q.2 := by omega
      simp [dues, hd]
    · grind [dues]

/-- The keys after an insertion. -/
lemma perm_keys_insertAt (x : α) (e : ℕ) (l : List (α × ℕ)) :
    ((insertAt x e l).map Prod.fst).Perm (x :: l.map Prod.fst) := by
  induction l generalizing e with
  | nil => rfl
  | cons q l ih =>
    rw [insertAt]
    split_ifs with h
    · rfl
    · exact ((ih (e - q.2)).cons q.1).trans (List.Perm.swap _ _ _)

lemma headPos_insertAt (he : 0 < e) (hl : HeadPos l) : HeadPos (insertAt x e l) := by
  cases l <;> grind [insertAt, HeadPos]

/-! ### Removal -/

section Remove

variable [DecidableEq α]

/-- Remove the first entry of `x` and give its distance to the entry behind it. -/
def remove (x : α) : List (α × ℕ) → List (α × ℕ)
  | [] => []
  | [(y, d)] => if y = x then [] else [(y, d)]
  | (y, d) :: (z, c) :: l =>
    if y = x then (z, d + c) :: l else (y, d) :: remove x ((z, c) :: l)

/-- Removal deletes the decoded entry of `x` and keeps every other. -/
lemma mem_dues_remove (hl : (l.map Prod.fst).Nodup) : p ∈ dues b (remove x l) ↔ p ∈ dues b l ∧ p.1 ≠ x := by
  induction l using remove.induct x generalizing b with
  | case1 => simp [remove]
  | case2 | case3 | case5 => grind [remove, dues]
  | case4 d z c l =>
    -- the distances from the start are the same, and no other entry is that of `x`
    have hkeys : ∀ q ∈ dues b ((z, d + c) :: l), q.1 ≠ x := fun q hq hqx =>
      hl.notMem (by simpa [hqx] using exists_mem_dues.mp ⟨q.2, hq⟩)
    grind [remove, dues]

lemma headPos_remove (hl : HeadPos l) : HeadPos (remove x l) := by
  induction l using remove.induct x with
  | case4 d z c l =>
    rw [remove, if_pos rfl]
    exact Nat.add_pos_left hl c
  | _ => grind [remove, HeadPos]

end Remove

/-! ### The passing of one unit -/

/-- One unit of time: the first distance shrinks by one. -/
def tick : List (α × ℕ) → List (α × ℕ)
  | [] => []
  | (x, d) :: l => (x, d - 1) :: l

/-- The entries that are due: the leading ones at distance zero. -/
def dueNow : List (α × ℕ) → List α
  | [] => []
  | (x, d) :: l => if d = 0 then x :: dueNow l else []

/-- What is left once the leading entries at distance zero are gone. -/
def dropZeros : List (α × ℕ) → List (α × ℕ)
  | [] => []
  | (x, d) :: l => if d = 0 then dropZeros l else (x, d) :: l

@[simp] lemma map_fst_tick (l : List (α × ℕ)) : (tick l).map Prod.fst = l.map Prod.fst := by
  cases l <;> rfl

/-- One unit of time moves every decoded entry of a list whose head is positive by one. -/
lemma mem_dues_tick (hl : HeadPos l) : (x, n) ∈ dues 0 (tick l) ↔ (x, n + 1) ∈ dues 0 l := by
  cases l with
  | nil => simp [tick]
  | cons p l =>
    have hd : 0 < p.2 := hl
    have hsum : 0 + (p.2 - 1) + 1 = 0 + p.2 := by omega
    have hshift := mem_dues_add (x := x) (n := n) (b := 0 + (p.2 - 1)) (c := 1) (l := l)
    grind [dues, tick]

/-- The due entries are those decoded to the start. -/
lemma mem_dueNow : x ∈ dueNow l ↔ (x, 0) ∈ dues 0 l := by
  induction l with
  | nil => simp [dueNow]
  | cons p l ih => grind [dues, dueNow, → le_of_mem_dues]

/-- The entries that stay are those decoded past the start. -/
lemma mem_dues_dropZeros : (x, n) ∈ dues 0 (dropZeros l) ↔ (x, n) ∈ dues 0 l ∧ 0 < n := by
  induction l with
  | nil => simp [dropZeros]
  | cons p l ih => grind [dues, dropZeros, → le_of_mem_dues]

lemma headPos_dropZeros (l : List (α × ℕ)) : HeadPos (dropZeros l) := by
  induction l with
  | nil => trivial
  | cons p l ih => grind [dropZeros, HeadPos]

/-- The due entries and the ones that stay make up the list. -/
lemma dueNow_append_dropZeros (l : List (α × ℕ)) : dueNow l ++ (dropZeros l).map Prod.fst = l.map Prod.fst := by
  induction l with
  | nil => rfl
  | cons p l ih => grind [dueNow, dropZeros]

/-- With distinct keys the entries of one key are one entry. -/
lemma filter_key_of_mem {β : Type*} [DecidableEq α] {l : List (α × β)}
    (hl : (l.map Prod.fst).Nodup) {y : β} (h : (x, y) ∈ l) : l.filter (·.1 = x) = [(x, y)] := by
  induction l with
  | nil => simp at h
  | cons p l ih =>
    obtain ⟨hp, hl⟩ := nodup_cons.mp hl
    obtain rfl | h := mem_cons.mp h
    · have hnone : l.filter (·.1 = x) = [] := filter_eq_nil_iff.mpr (by grind)
      simp [hnone]
    · grind

end UcoreKernel.DeltaList
