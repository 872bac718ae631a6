import Mathlib.Tactic

/-!
`libs/string.c` and `libs/printfmt.c`: `stricmp`, `strtol` and `printnum`.

A string is the list of the bytes in front of its terminator, and a pointer into it is what is left of the list.
-/

namespace UcoreKernel.Str

open List

abbrev Chars := List (BitVec 8)

/-- The strings: there is no terminator among the bytes in front of it. -/
abbrev CStr := {s : Chars // 0 ∉ s}

/-- `*s`. -/
def deref (s : Chars) : BitVec 8 := s.headD 0

/-! ### `stricmp` -/

variable (signed : Bool)

/-- `t1` and `t2`; `signed` are the ports on which a `char` has a sign. -/
def fold (c : BitVec 8) : BitVec 8 :=
  if (if signed then c.toInt else c.toNat) > 90 then c - 32 else c

/-- What `stricmp` returns behind its loop. -/
def difference (s1 s2 : Chars) : ℤ := (fold signed (deref s1)).toNat - (fold signed (deref s2)).toNat

/-- `stricmp`; `none` stands for a read behind the terminator of `s2`. -/
def stricmp : Chars → Chars → Option ℤ
  | [], s2 => some (difference signed [] s2)
  | c :: s1, s2 =>
    if c ≠ 0 ∧ fold signed c = fold signed (deref s2) then
      match s2 with
      | [] => none
      | _ :: s2 => stricmp s1 s2
    else some (difference signed (c :: s1) s2)

/-- Letters in upper case. -/
def upper (c : BitVec 8) : BitVec 8 := if 97 ≤ c ∧ c ≤ 122 then c - 32 else c

/-- One of the characters between the digits and the letters, and the one that is 32 behind it. -/
def Mixed (a b : BitVec 8) : Prop :=
  59 ≤ a ∧ a ≤ 64 ∧ b = a + 32 ∨ 59 ≤ b ∧ b ≤ 64 ∧ a = b + 32

/-- The strings are the same in upper case where no two characters are mixed up. -/
def Alike : Chars → Chars → Prop := Forall₂ fun a b => upper a = upper b ∨ Mixed a b

/-- The strings are alike, but not the same in upper case. -/
def Confused (s t : Chars) : Prop := s.map upper ≠ t.map upper ∧ Alike s t

variable {signed}

lemma fold_toNat (c : BitVec 8) : (fold signed c).toNat =
    if 90 < c.toNat ∧ (c.toNat < 128 ∨ signed = false) then c.toNat - 32 else c.toNat := by
  have := c.isLt
  rw [fold, BitVec.toInt_eq_toNat_cond]
  cases signed <;> simp <;> split_ifs <;> bv_omega

/-- When `stricmp` takes two characters for the same one. -/
lemma fold_eq_iff {a b : BitVec 8} : fold signed a = fold signed b ↔ upper a = upper b ∨ Mixed a b := by
  have hupper : ∀ c,
      (upper c).toNat = if 97 ≤ c.toNat ∧ c.toNat ≤ 122 then c.toNat - 32 else c.toNat := by
    intro c
    rw [upper]
    split_ifs <;> bv_omega
  rw [Mixed, ← BitVec.toNat_inj, ← BitVec.toNat_inj, fold_toNat, fold_toNat, hupper, hupper]
  cases signed <;> simp only [reduceCtorEq, or_true, or_false, and_true] <;> split_ifs <;> bv_omega

/-- No character is taken for the terminator. -/
lemma fold_ne {c : BitVec 8} (hc : ¬0 = c) : fold signed c ≠ fold signed 0 := by
  rw [Ne, ← BitVec.toNat_inj, fold_toNat, fold_toNat]
  split_ifs <;> bv_omega

lemma difference_eq_zero_iff {s t : Chars} :
    difference signed s t = 0 ↔ fold signed (deref s) = fold signed (deref t) := by
  rw [difference, sub_eq_zero, Nat.cast_inj, BitVec.toNat_inj]

/-- The result is 0 if `stricmp` takes each two characters for the same. -/
lemma stricmp_spec {s t : Chars} (hs : 0 ∉ s) (ht : 0 ∉ t) : ∃ r, stricmp signed s t = some r ∧
    (r = 0 ↔ Alike s t) := by
  induction s generalizing t with
  | nil =>
    refine ⟨_, rfl, difference_eq_zero_iff.trans ?_⟩
    cases t with
    | nil => exact iff_of_true rfl .nil
    | cons b t => exact iff_of_false (fold_ne (mt (by rintro rfl; simp) ht)).symm nofun
  | cons a s ih =>
    rw [mem_cons, not_or] at hs
    cases t with
    | nil =>
      have hne : fold signed a ≠ fold signed 0 := fold_ne hs.1
      rw [stricmp, if_neg fun h => hne h.2]
      exact ⟨_, rfl, iff_of_false (mt difference_eq_zero_iff.mp hne) nofun⟩
    | cons b t =>
      rw [mem_cons, not_or] at ht
      rw [Alike, forall₂_cons, ← @fold_eq_iff signed]
      by_cases hEq : fold signed a = fold signed b
      · rw [stricmp, if_pos ⟨Ne.symm hs.1, hEq⟩, and_iff_right hEq]
        exact ih hs.2 ht.2
      · rw [stricmp, if_neg fun h => hEq h.2]
        exact ⟨_, rfl, iff_of_false (mt difference_eq_zero_iff.mp hEq) fun h => hEq h.1⟩

/-- For every two strings `stricmp` returns, without a read behind a terminator. Its result is 0 exactly for strings
that are equal in upper case, unless characters that are no letters are mixed up. -/
theorem stricmp_zero_iff (signed : Bool) (s t : CStr) : ∃ r, stricmp signed s t = some r ∧
    ((r = 0 ↔ s.1.map upper = t.1.map upper) ↔ ¬Confused s t) := by
  obtain ⟨r, hr, hzero⟩ := @stricmp_spec signed _ _ s.2 t.2
  refine ⟨r, hr, ?_⟩
  have hsame : s.1.map upper = t.1.map upper → Alike s t := by
    intro h
    rw [← forall₂_eq_eq_eq, forall₂_map_left_iff, forall₂_map_right_iff] at h
    exact h.imp fun _ _ => .inl
  rw [hzero, Confused]
  tauto

/-- `[` and `;` are mixed up. -/
theorem stricmp_bracket : stricmp true [91] [59] = some 0 ∧ [(91 : BitVec 8)].map upper ≠ [59].map upper := by
  decide

/-! ### `printnum` and `strtol` -/

/-- The bases. -/
abbrev Base := {b : ℕ // 2 ≤ b ∧ b ≤ 16}

/-- `"0123456789abcdef"[mod]`. -/
def digit (mod : ℕ) : BitVec 8 := if mod < 10 then 48 + mod else 87 + mod

/-- `printnum`: the characters that it gives to `putch`. -/
def printnum (base : Base) (num : ℕ) (width : ℤ) (padc : BitVec 8) : Chars :=
  (if num ≥ base.1 then printnum base (num / base) (width - 1) padc else replicate (width - 1).toNat padc) ++
    [digit (num % base)]
termination_by num
decreasing_by exact Nat.div_lt_self (by have := base.2; omega) base.2.1

/-- The value of a digit. -/
def digitVal (c : BitVec 8) : Option ℕ :=
  if 48 ≤ c ∧ c ≤ 57 then some (c.toNat - 48)
  else if 97 ≤ c ∧ c ≤ 122 then some (c.toNat - 97 + 10)
  else if 65 ≤ c ∧ c ≤ 90 then some (c.toNat - 65 + 10)
  else none

/-- The loop of `strtol` over the digits, for a `long` of `w` bits. -/
def strtolLoop {w : ℕ} (base : ℕ) : Chars → BitVec w → BitVec w × Chars
  | [], val => (val, [])
  | c :: s, val =>
    match (digitVal c).filter (· < base) with
    | none => (val, c :: s)
    | some dig => strtolLoop base s (val * .ofNat w base + .ofNat w dig)

/-- `strtol`: the value and `*endptr`. -/
def strtol (w : ℕ) (s : Chars) (base : ℕ) : BitVec w × Chars :=
  let s := s.dropWhile fun c => c = 32 ∨ c = 9
  let neg := deref s = 45
  let s := if deref s = 43 ∨ neg then s.tail else s
  let (s, base) :=
    if (base = 0 ∨ base = 16) ∧ deref s = 48 ∧ deref s.tail = 120 then (s.tail.tail, 16)
    else if base = 0 ∧ deref s = 48 then (s.tail, 8)
    else if base = 0 then (s, 10)
    else (s, base)
  let (val, s) := strtolLoop base s 0
  (if neg then -val else val, s)

variable {base : Base} {w : ℕ} {l : List ℕ}

/-- The digits that `printnum` prints, behind what it pads with. -/
lemma exists_digits (base : Base) (num : ℕ) : ∃ l : List ℕ, (∀ d ∈ l, d < base.1) ∧
    l.foldl (fun val d => val * base.1 + d) 0 = num ∧ ∀ width padc,
      printnum base num width padc = replicate (width - l.length).toNat padc ++ l.map digit := by
  have hbase : 0 < base.1 := Nat.zero_lt_of_lt base.2.1
  induction num using Nat.strong_induction_on with
  | h num ih =>
    by_cases hnum : num ≥ base.1
    · obtain ⟨l, hlt, hval, hprint⟩ := ih (num / base) (Nat.div_lt_self (hbase.trans_le hnum) base.2.1)
      refine ⟨l ++ [num % base.1], ?_, ?_, fun width padc => ?_⟩
      · simpa [or_imp, forall_and] using ⟨hlt, Nat.mod_lt num hbase⟩
      · rw [foldl_concat, hval, Nat.div_add_mod']
      · rw [printnum, if_pos hnum, hprint, map_append, append_assoc, length_append, length_singleton, Nat.cast_add,
          sub_sub, add_comm 1]
        rfl
    · refine ⟨[num % base.1], ?_, ?_, fun width padc => ?_⟩
      · simpa using Nat.mod_lt num hbase
      · simpa using Nat.mod_eq_of_lt (not_le.mp hnum)
      · rw [printnum, if_neg hnum]
        rfl

/-- The loop reads digits of the base. -/
lemma strtolLoop_digits (hl : ∀ d ∈ l, d < base.1) (val : ℕ) : strtolLoop base (l.map digit) (.ofNat w val) =
    (.ofNat w (l.foldl (fun val d => val * base.1 + d) val), []) := by
  have hdigit : ∀ d < 16, digitVal (digit d) = some d := by decide
  induction l generalizing val with
  | nil => rfl
  | cons d l ih =>
    rw [forall_mem_cons] at hl
    rw [map_cons, strtolLoop, hdigit d (hl.1.trans_le base.2.2), Option.filter_some, if_pos (by simpa using hl.1),
      foldl_cons, ← ih hl.2, BitVec.ofNat_add, BitVec.ofNat_mul]

/-- Digits are not what `strtol` looks for in front of them. -/
lemma deref_digits (hl : ∀ d ∈ l, d < base.1) : deref (l.map digit) ∉ [32, 9, 43, 45, 120] := by
  have hdigit : ∀ d < 16, digit d ∉ [32, 9, 43, 45, 120] := by decide
  cases l with
  | nil => decide
  | cons d l => exact hdigit d ((hl d (.head _)).trans_le base.2.2)

/-- For every base and every `long` that is not negative, `strtol` reads the digits that `printnum` prints, up to
their end; `printnum` prints nothing else, unless the width is larger. -/
theorem strtol_printnum (base : Base) (w : ℕ) (n : BitVec w) : ∃ digits : Chars,
    (∀ width padc, printnum base n.toNat width padc = replicate (width - digits.length).toNat padc ++ digits) ∧
      strtol w digits base = (n, []) := by
  obtain ⟨l, hl, hval, hprint⟩ := exists_digits base n.toNat
  refine ⟨l.map digit, by simpa using hprint, ?_⟩
  have hfirst := deref_digits hl
  have hsecond := deref_digits fun d hd => hl d (mem_of_mem_tail hd)
  simp only [mem_cons, not_mem_nil, or_false, not_or] at hfirst hsecond
  obtain ⟨hblank, htab, hplus, hminus, -⟩ := hfirst
  obtain ⟨-, -, -, -, hx⟩ := hsecond
  have hskip : (l.map digit).dropWhile (fun c => c = 32 ∨ c = 9) = l.map digit := by
    cases l with
    | nil => rfl
    | cons d l => exact dropWhile_cons_of_neg (by simpa using ⟨hblank, htab⟩)
  have hbase : base.1 ≠ 0 := (Nat.zero_lt_of_lt base.2.1).ne'
  have hloop := @strtolLoop_digits base w l hl 0
  rw [hval, BitVec.ofNat_toNat, BitVec.setWidth_eq] at hloop
  rw [map_tail] at hx
  simp only [strtol, hskip, if_neg hminus, if_neg (not_or.mpr ⟨hplus, hminus⟩), hx, hbase, and_false, false_and,
    if_false]
  exact hloop

end UcoreKernel.Str
