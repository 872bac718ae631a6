import Mathlib.Tactic

/-!
A ring of cells as a window on a growing sequence.

A sequence `l` grows at its end and is consumed from its start; the part that is not consumed
yet, from position `r` on, is kept in `B` cells, position `i` in cell `i % B`. `Holds` is this
representation. It survives the storing of a new element as long as fewer than `B` are waiting
(`Holds.push`), and the consumption of the oldest (`Holds.advance`), which is read off its cell
(`Holds.front`).
-/

namespace UcoreKernel.RingBuf

open List

variable {α : Type*}

/-- The elements of `l` from position `r` on lie in the cells of `buf`. -/
def Holds (B : ℕ) (buf : ℕ → α) (l : List α) (r : ℕ) : Prop :=
  ∀ i, r ≤ i → i < l.length → l[i]? = some (buf (i % B))

variable {B : ℕ}

/-- Two positions less than a full turn apart have different cells. -/
lemma mod_ne_of_lt {i j : ℕ} (hij : i < j) (hj : j < i + B) : i % B ≠ j % B := by
  intro h
  have hdvd : B ∣ j - i := (Nat.modEq_iff_dvd' hij.le).mp h
  have hle : B ≤ j - i := Nat.le_of_dvd (by omega) hdvd
  omega

/-- An empty sequence is represented by any cells. -/
lemma holds_nil (B : ℕ) (buf : ℕ → α) (r : ℕ) : Holds B buf [] r := by
  intro i _ hi
  simp at hi

variable {buf : ℕ → α} {l : List α} {r : ℕ}

variable (h : Holds B buf l r)
include h

/-- Storing the next element overwrites no cell that is still needed. -/
lemma Holds.push (hroom : l.length < r + B) (x : α) :
    Holds B (Function.update buf (l.length % B) x) (l ++ [x]) r := by
  intro i hri hi
  rw [length_append, length_singleton] at hi
  obtain rfl | hlast := eq_or_ne i l.length
  · simp
  · have hlt : i < l.length := by omega
    have hcell : i % B ≠ l.length % B := mod_ne_of_lt hlt (by omega)
    rw [Function.update_of_ne hcell, getElem?_append_left hlt]
    exact h i hri hlt

/-- Consuming elements keeps the representation. -/
lemma Holds.advance {r' : ℕ} (hr : r ≤ r') : Holds B buf l r' :=
  fun i hi hlen => h i (hr.trans hi) hlen

/-- The oldest element is in its cell. -/
lemma Holds.front (hr : r < l.length) : l[r]? = some (buf (r % B)) := h r le_rfl hr

end UcoreKernel.RingBuf
