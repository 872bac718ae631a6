import Mathlib.Tactic

/-!
Tables of several levels that are indexed by the digits of an address.

An entry of the lowest level stands for a unit of addresses, and an entry of the level `k + 1` for all that a
table of level `k` covers; it may be missing. The digits need not have the same base on every level.
-/

namespace UcoreKernel.RadixTable

/-- The unit of addresses, and the number of entries of a table of each level. -/
structure Radix where
  unit : ℕ
  fan : ℕ → ℕ
  unit_pos : 0 < unit
  fan_pos : ∀ k, 0 < fan k

/-- A table of level `k`, with entries of type `β` on the lowest level. -/
def Table (β : Type) : ℕ → Type
  | 0 => ℕ → β
  | k + 1 => ℕ → Option (Table β k)

namespace Radix

variable (R : Radix) {β : Type} {k : ℕ}

/-- The number of addresses that an entry of level `k` stands for. -/
def span : ℕ → ℕ
  | 0 => R.unit
  | k + 1 => span k * R.fan k

/-- The index of an address in a table of level `k`. -/
def index (k x : ℕ) : ℕ := x / R.span k % R.fan k

/-- The entry for an address, and 0 if there is no table for it. -/
def lookup [Zero β] : (k : ℕ) → Table β k → ℕ → β
  | 0, t, x => t (R.index 0 x)
  | k + 1, t, x =>
    match t (R.index (k + 1) x) with
    | none => 0
    | some sub => lookup k sub x

/-- An entry of the lowest level is replaced. -/
def setEntry (t : Table β 0) (i : ℕ) (b : β) : Table β 0 := fun j => if j = i then b else t j

/-- A table is replaced in the table above it. -/
def setSub (t : Table β (k + 1)) (i : ℕ) (sub : Table β k) : Table β (k + 1) :=
  fun j => if j = i then some sub else t j

lemma span_pos (k : ℕ) : 0 < R.span k := by
  induction k with
  | zero => exact R.unit_pos
  | succ k ih => exact Nat.mul_pos ih (R.fan_pos k)

lemma unit_dvd_span (k : ℕ) : R.unit ∣ R.span k := by
  induction k with
  | zero => exact dvd_refl _
  | succ k ih => exact ih.mul_right _

/-- Addresses of one table and of another one have the same digits. -/
lemma index_add_mul (k x m : ℕ) : R.index k (x + R.span (k + 1) * m) = R.index k x := by
  rw [index, index, span, mul_assoc, Nat.add_mul_div_left _ _ (R.span_pos k), Nat.add_mul_mod_self_left]

variable {x : ℕ}

/-- Within a table, the index is the digit of the address. -/
lemma index_of_lt (hx : x < R.span (k + 1)) : R.index k x = x / R.span k := by
  rw [index, Nat.mod_eq_of_lt (Nat.div_lt_of_lt_mul hx)]

section Lookup

variable [Zero β]

/-- Only the address within the table matters. -/
lemma lookup_add_mul (t : Table β k) (x m : ℕ) : R.lookup k t (x + R.span (k + 1) * m) = R.lookup k t x := by
  induction k generalizing x m with
  | zero => rw [lookup, lookup, index_add_mul]
  | succ k ih => grind [lookup, index_add_mul, span, mul_assoc]

/-- What is found after an entry has been replaced. -/
lemma lookup_setEntry (t : Table β 0) (i : ℕ) (b : β) (x : ℕ) :
    R.lookup 0 (setEntry t i b) x = if R.index 0 x = i then b else R.lookup 0 t x := by
  rw [lookup, lookup, setEntry]

/-- What is found after a table has been replaced. -/
lemma lookup_setSub (t : Table β (k + 1)) (i : ℕ) (sub : Table β k) (x : ℕ) :
    R.lookup (k + 1) (setSub t i sub) x =
      if R.index (k + 1) x = i then R.lookup k sub x else R.lookup (k + 1) t x := by
  grind [lookup, setSub]

variable {t : Table β (k + 1)}

/-- The table for an address. -/
lemma lookup_of_some {sub : Table β k} (h : t (R.index (k + 1) x) = some sub) :
    R.lookup (k + 1) t x = R.lookup k sub x := by rw [lookup, h]

lemma lookup_of_none (h : t (R.index (k + 1) x) = none) : R.lookup (k + 1) t x = 0 := by rw [lookup, h]

end Lookup

end Radix

end UcoreKernel.RadixTable
