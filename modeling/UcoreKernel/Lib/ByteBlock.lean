import Mathlib.Tactic

/-!
Blocks of bytes, and what is stored in them.

A block is a function from offsets to bytes. Bytes are copied out of it and into it, and numbers are
stored in it as little-endian words.
-/

namespace UcoreKernel.ByteBlock

open List

/-- A block of bytes. -/
abbrev Block := ℕ → UInt8

/-- The block that is zero everywhere. -/
def zero : Block := fun _ => 0

/-! ### Copying bytes -/

/-- The bytes from an offset on. -/
def read (b : Block) (off len : ℕ) : List UInt8 := (List.range len).map fun i => b (off + i)

/-- Bytes put at an offset. -/
def write (b : Block) (off : ℕ) (bytes : List UInt8) : Block := fun i =>
  if off ≤ i ∧ i < off + bytes.length then bytes.getD (i - off) 0 else b i

variable {b : Block} {off len i j n : ℕ} {bytes : List UInt8}

@[simp] lemma length_read : (read b off len).length = len := by simp [read]

lemma write_of_lt (h : i < off) : write b off bytes i = b i := if_neg (by omega)

lemma write_of_ge (h : off + bytes.length ≤ i) : write b off bytes i = b i := if_neg (by omega)

section

variable (b : Block) (off : ℕ)

lemma write_add (h : i < bytes.length) : write b off bytes (off + i) = bytes.getD i 0 := by
  rw [write, if_pos (by omega), Nat.add_sub_cancel_left]

/-- A part of what was written is read back. -/
lemma read_write (h : i + len ≤ bytes.length) :
    read (write b off bytes) (off + i) len = (bytes.drop i).take len := by
  refine ext_getElem (by simp; omega) fun k hk _ => ?_
  have hk : k < len := by simpa using hk
  simp only [read, getElem_map, getElem_range, getElem_take, getElem_drop]
  rw [add_assoc, write_add _ _ (by omega), getD_eq_getElem?_getD, getElem?_eq_getElem, Option.getD_some]

lemma read_write_self (bytes : List UInt8) : read (write b off bytes) off bytes.length = bytes := by
  have h := read_write b off (show 0 + bytes.length ≤ bytes.length by simp)
  simpa using h

end

/-- Bytes elsewhere are not changed. -/
lemma read_write_of_disjoint (h : i + len ≤ off ∨ off + bytes.length ≤ i) :
    read (write b off bytes) i len = read b i len := by
  refine map_congr_left fun k hk => ?_
  rw [mem_range] at hk
  obtain h | h := h
  · exact write_of_lt (by omega)
  · exact write_of_ge (by omega)

lemma write_apply (b : Block) (off : ℕ) (bytes : List UInt8) (i : ℕ) :
    write b off bytes i = if off ≤ i ∧ i < off + bytes.length then bytes.getD (i - off) 0 else b i :=
  rfl

/-- A copy of some bytes agrees with them. -/
lemma write_read (b c : Block) (h : i < len) : write c 0 (read b 0 len) i = b i := by
  have hwrite := write_add c 0 (show i < (read b 0 len).length by rwa [length_read])
  rw [zero_add] at hwrite
  rw [hwrite]
  simp [read, h]

@[simp] lemma write_nil (b : Block) (off : ℕ) : write b off [] = b := by
  funext i
  rw [write_apply, if_neg (by simp)]

/-- Two pieces that follow each other are read as one. -/
lemma read_append (b : Block) (off m n : ℕ) : read b off m ++ read b (off + m) n = read b off (m + n) := by
  simp only [read, range_add, map_append, map_map]
  congr 1
  refine map_congr_left fun i _ => ?_
  simp [add_assoc]

/-- Two pieces that follow each other are written as one. -/
lemma write_append (b : Block) (off : ℕ) (xs ys : List UInt8) :
    write (write b off xs) (off + xs.length) ys = write b off (xs ++ ys) := by
  funext i
  simp only [write_apply, length_append]
  by_cases hlow : off ≤ i
  · by_cases hxs : i < off + xs.length
    · grind
    · grind
  · grind

/-! ### Numbers -/

/-- The lowest bytes of a number, the lowest first. -/
def leBytes : ℕ → ℕ → List UInt8
  | 0, _ => []
  | w + 1, n => UInt8.ofNat n :: leBytes w (n / 256)

/-- The number that bytes stand for. -/
def leNat : List UInt8 → ℕ
  | [] => 0
  | x :: bytes => x.toNat + 256 * leNat bytes

@[simp] lemma length_leBytes (w n : ℕ) : (leBytes w n).length = w := by
  induction w generalizing n with
  | zero => rfl
  | succ w ih => simp [leBytes, ih]

lemma leNat_leBytes (w n : ℕ) : leNat (leBytes w n) = n % 256 ^ w := by
  induction w generalizing n with
  | zero => simp [leBytes, leNat, Nat.mod_one]
  | succ w ih =>
    rw [leBytes, leNat, ih, UInt8.toNat_ofNat', pow_succ' 256 w, Nat.mod_mul]

/-! ### Words -/

/-- The word with the given index. -/
def word (b : Block) (i : ℕ) : ℕ := leNat (read b (4 * i) 4)

/-- One word replaced. -/
def setWord (b : Block) (i n : ℕ) : Block := write b (4 * i) (leBytes 4 n)

/-- The first words replaced. -/
def setWords (b : Block) (words : List ℕ) : Block := write b 0 (words.flatMap (leBytes 4))

@[simp] lemma word_zero : word zero i = 0 := by
  simp [word, read, zero, leNat, range_succ]

lemma word_setWord_self : word (setWord b i n) i = n % 2 ^ 32 := by
  grind [read_write_self, length_leBytes, word, setWord, leNat_leBytes]

lemma word_setWord_of_ne (h : i ≠ j) : word (setWord b i n) j = word b j := by
  rw [word, setWord, read_write_of_disjoint, word]
  rw [length_leBytes]
  omega

/-- The words of a block after one was replaced. -/
lemma word_setWord (hn : n < 2 ^ 32) : word (setWord b i n) = Function.update (word b) i n := by
  funext j
  by_cases h : i = j
  · grind [word_setWord_self]
  · rw [word_setWord_of_ne h, Function.update_of_ne (Ne.symm h)]

@[simp] lemma length_flatMap_leBytes (words : List ℕ) :
    (words.flatMap (leBytes 4)).length = 4 * words.length := by
  induction words with
  | nil => rfl
  | cons w words ih => grind [length_leBytes]

/-- The words of a record are read back. -/
lemma word_setWords {words : List ℕ} (h : i < words.length) :
    word (setWords b words) i = words.getD i 0 % 2 ^ 32 := by
  have hread := read_write b 0 (show 4 * i + 4 ≤ (words.flatMap (leBytes 4)).length by
    rw [length_flatMap_leBytes]
    omega)
  rw [zero_add] at hread
  rw [word, setWords, hread]
  suffices hdrop : ((words.flatMap (leBytes 4)).drop (4 * i)).take 4 = leBytes 4 (words.getD i 0) by
    rw [hdrop, leNat_leBytes, show 256 ^ 4 = 2 ^ 32 by norm_num]
  clear hread
  induction words generalizing i with
  | nil => simp at h
  | cons w words ih =>
    cases i with
    | zero => simp
    | succ i => grind [length_leBytes, drop_drop, drop_left]

end UcoreKernel.ByteBlock
