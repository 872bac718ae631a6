import Mathlib.Tactic

/-!
`fs/sfs/bitmap.c`: a set of free indices as a map of bits.
-/

namespace UcoreKernel.Freemap

open List Function BitVec

/-- `struct bitmap`. -/
structure Bitmap where
  nbits : ℕ
  nwords : ℕ
  map : ℕ → BitVec 32

/-- `WORD_TYPE mask`. -/
def mask (offset : ℕ) : BitVec 32 := 1#32 <<< offset

/-- `bitmap_create`; `wide` are the ports with a `size_t` of 64 bits. -/
def bitmapCreate (wide : Bool) (nbits : BitVec 32) : Option Bitmap :=
  let size := if wide then 2 ^ 64 else 2 ^ 32
  let nbits := nbits.toNat
  if nbits ≠ 0 ∧ (nbits + 32) % size > nbits then
    let nwords := (nbits + 32 - 1) % 2 ^ 32 / 32
    if nbits ≠ nwords * 32 % size then
      let ix := ((nwords - 1 : ℤ) % 2 ^ 32).toNat
      let overbits := ((nbits - ix * 32 : ℤ) % 2 ^ 32).toNat
      if nbits / 32 = ix ∧ overbits > 0 ∧ overbits < 32 then
        let word := (range' overbits (32 - overbits)).foldl (fun word k => word ^^^ mask k) (.allOnes 32)
        some ⟨nbits, nwords, update (fun _ => .allOnes 32) ix word⟩
      else none
    else some ⟨nbits, nwords, fun _ => .allOnes 32⟩
  else none

/-- `bitmap_alloc`. -/
def bitmapAlloc (b : Bitmap) : Option (Option ℕ × Bitmap) :=
  match (range b.nwords).find? fun ix => b.map ix ≠ 0 with
  | none => some (none, b)
  | some ix =>
    match (range 32).find? fun offset => b.map ix &&& mask offset ≠ 0 with
    | none => none
    | some offset =>
      some (some (ix * 32 + offset), { b with map := update b.map ix (b.map ix ^^^ mask offset) })

/-- `bitmap_test`. -/
def bitmapTest (b : Bitmap) (index : ℕ) : Option Bool :=
  if index < b.nbits then some (b.map (index / 32) &&& mask (index % 32) ≠ 0) else none

/-- `bitmap_free`. -/
def bitmapFree (b : Bitmap) (index : ℕ) : Option Bitmap :=
  let word := b.map (index / 32)
  if index < b.nbits ∧ ¬(word &&& mask (index % 32) ≠ 0) then
    some { b with map := update b.map (index / 32) (word ||| mask (index % 32)) }
  else none

/-! ### The free indices -/

/-- A call, on the bitmap and on the set of the free indices below `n`; what is freed is in use. -/
inductive Step (n : ℕ) : Bitmap × Finset ℕ → Bitmap × Finset ℕ → Prop
  | alloc {b b' free r} : bitmapAlloc b = some (r, b') → Step n (b, free) (b', free \ r.toFinset)
  | free {b b' free i} : i < n → i ∉ free → bitmapFree b i = some b' → Step n (b, free) (b', insert i free)

/-- The bits that are set are those of the free indices; the last word has no others. -/
structure Refines (n : ℕ) (b : Bitmap) (free : Finset ℕ) : Prop where
  nbits : b.nbits = n
  le : n ≤ b.nwords * 32
  lt : ∀ i ∈ free, i < n
  bit : ∀ i < b.nwords * 32, (b.map (i / 32)).getLsbD (i % 32) = decide (i ∈ free)

variable {n k i j : ℕ} {b : Bitmap} {free free' : Finset ℕ} {word : BitVec 32}
  {s s' : Bitmap × Finset ℕ}

lemma getLsbD_mask (hj : j < 32) : (mask k).getLsbD j = decide (k = j) := by
  rw [mask, ← twoPow_eq, getLsbD_twoPow]
  grind

lemma and_mask_ne_zero_iff (i : ℕ) : word &&& mask (i % 32) ≠ 0 ↔ word.getLsbD (i % 32) = true := by
  have hk : i % 32 < 32 := i.mod_lt (by decide)
  rw [mask, ← twoPow_eq, and_twoPow]
  split_ifs with h
  · exact iff_of_true (fun h0 => by simpa [hk] using congrArg (BitVec.getLsbD · (i % 32)) h0) h
  · simp [h]

namespace Refines

/-- The bit of one index changes. -/
lemma flip (h : Refines n b free) (hi : i < n)
    (hword : ∀ j < 32, word.getLsbD j = ((b.map (i / 32)).getLsbD j ^^ decide (i % 32 = j)))
    (hmem : ∀ k, k ∈ free' ↔ ¬(k ∈ free ↔ k = i)) :
    Refines n { b with map := update b.map (i / 32) word } free' := by
  refine ⟨h.nbits, h.le, fun k hk => ?_, fun k hk => ?_⟩
  · have := h.lt k
    grind
  · have hbit := h.bit k hk
    by_cases hword' : k / 32 = i / 32
    · have heq : i % 32 = k % 32 ↔ k = i := by omega
      rw [hword'] at hbit ⊢
      simp only [update_self, hword _ (k.mod_lt (by decide)), hbit, hmem, heq]
      grind
    · have hne : k ≠ i := fun heq => hword' (heq ▸ rfl)
      simp [update_of_ne hword', hbit, hmem, hne]

/-- The first index found is the least one. -/
lemma alloc (h : Refines n b free) :
    ∃ r b', bitmapAlloc b = some (r, b') ∧ (r = none ↔ free = ∅) ∧ (∀ i ∈ r, IsLeast ↑free i) ∧
      Refines n b' (free \ r.toFinset) := by
  have hset : ∀ i ∈ free, b.map (i / 32) &&& mask (i % 32) ≠ 0 := fun i hi =>
    (and_mask_ne_zero_iff i).mpr (by simp [h.bit i ((h.lt i hi).trans_le h.le), hi])
  rw [bitmapAlloc]
  cases hfind : (range b.nwords).find? fun ix => b.map ix ≠ 0 with
  | none =>
    have hempty : free = ∅ := Finset.eq_empty_of_forall_notMem fun i hi => by
      have hzero := find?_range_eq_none.mp hfind (i / 32) (by have := h.le; have := h.lt i hi; omega)
      have := hset i hi
      simp_all
    exact ⟨none, b, rfl, by simp [hempty], by simp, by simpa using h⟩
  | some ix =>
    obtain ⟨hne, hix, hbefore⟩ := find?_range_eq_some.mp hfind
    rw [mem_range] at hix
    cases hbit : (range 32).find? fun offset => b.map ix &&& mask offset ≠ 0 with
    | none =>
      have hzero : b.map ix = 0 := eq_of_getLsbD_eq fun j hj => by
        have := find?_range_eq_none.mp hbit j hj
        have := @and_mask_ne_zero_iff (b.map ix) j
        simp_all [Nat.mod_eq_of_lt hj]
      simp [hzero] at hne
    | some offset =>
      obtain ⟨hone, hoffset, hunset⟩ := find?_range_eq_some.mp hbit
      rw [mem_range] at hoffset
      obtain ⟨i, rfl, rfl⟩ : ∃ i, ix = i / 32 ∧ offset = i % 32 := ⟨ix * 32 + offset, by omega, by omega⟩
      have htrue := (and_mask_ne_zero_iff i).mp (of_decide_eq_true hone)
      have hmem : i ∈ free := by simpa [h.bit i (by omega)] using htrue
      simp only [hbit, Nat.div_add_mod']
      refine ⟨_, _, rfl, by simp [Finset.ne_empty_of_mem hmem], ?_,
        h.flip (h.lt i hmem) (fun j hj => ?_) (by grind [Option.toFinset_some])⟩
      · rintro _ ⟨⟩
        refine ⟨hmem, fun k hk => not_lt.mp fun hlt => ?_⟩
        have := hset k hk
        obtain hlt' | heq : k / 32 < i / 32 ∨ k / 32 = i / 32 := by omega
        · have := hbefore _ hlt'
          simp_all
        · have := hunset (k % 32) (by omega)
          simp_all
      · rw [getLsbD_xor, getLsbD_mask hj]

lemma insert (h : Refines n b free) (hi : i < n) (hused : i ∉ free) :
    ∃ b', bitmapFree b i = some b' ∧ Refines n b' (Insert.insert i free) := by
  have hbit := h.bit i (hi.trans_le h.le)
  rw [decide_eq_false hused] at hbit
  rw [bitmapFree, if_pos ⟨hi.trans_eq h.nbits.symm, by rw [and_mask_ne_zero_iff, hbit]; decide⟩]
  refine ⟨_, rfl, h.flip hi (fun j hj => ?_) (by grind)⟩
  rw [getLsbD_or, getLsbD_mask hj]
  grind

lemma step (h : Refines n s.1 s.2) (hstep : Step n s s') : Refines n s'.1 s'.2 := by
  cases hstep with
  | alloc hrun =>
    obtain ⟨r, b', heq, -, -, h'⟩ := h.alloc
    cases heq.symm.trans hrun
    exact h'
  | free hi hused hrun =>
    obtain ⟨b', heq, h'⟩ := h.insert hi hused
    cases heq.symm.trans hrun
    exact h'

lemma run (hrun : Relation.ReflTransGen (Step n) s s') (h : Refines n s.1 s.2) :
    Refines n s'.1 s'.2 := by
  induction hrun with
  | refl => exact h
  | tail _ hstep ih => exact ih.step hstep

end Refines

/-- The loop clears the bits from `k` on. -/
lemma foldl_xor_getLsbD {m : ℕ} (hj : j < 32) :
    ((range' k m).foldl (fun word k => word ^^^ mask k) word).getLsbD j =
      (word.getLsbD j ^^ decide (k ≤ j ∧ j < k + m)) := by
  induction m generalizing k word with
  | zero => rw [range'_zero, foldl_nil, decide_eq_false (by omega), Bool.xor_false]
  | succ m ih =>
    rw [range'_succ, foldl_cons, ih, getLsbD_xor, getLsbD_mask hj, Bool.xor_assoc]
    congr 1
    obtain rfl | hne := eq_or_ne k j
    · simp
    · simp only [hne, decide_false, Bool.false_xor]
      exact decide_eq_decide.mpr (by omega)

/-- The map is made with the bits of all indices, and no others. -/
lemma bitmapCreate_refines (wide : Bool) (nbits : BitVec 32) :
    match bitmapCreate wide nbits with
    | none => nbits = 0 ∨ 2 ^ 32 ≤ nbits.toNat + 32
    | some b => Refines nbits.toNat b (.range nbits.toNat) := by
  have hlt := nbits.isLt
  have hsize : 2 ^ 32 ≤ if wide then 2 ^ 64 else 2 ^ 32 := by split <;> decide
  simp only [bitmapCreate]
  generalize (if wide then 2 ^ 64 else 2 ^ 32) = size at hsize
  rw [Nat.mod_eq_of_lt (by omega : _ / 32 * 32 < size)]
  split_ifs with h0 h1 h2
  · obtain ⟨hix, hpos, hover⟩ := h2
    rw [← hix] at hpos hover ⊢
    refine ⟨rfl, by dsimp only; omega, by simp, fun i hi => ?_⟩
    simp only [Finset.mem_range] at hi ⊢
    by_cases hi' : i / 32 = nbits.toNat / 32
    · rw [hi', update_self, foldl_xor_getLsbD (i.mod_lt (by decide)), getLsbD_allOnes,
        decide_eq_true (i.mod_lt (by decide)), Bool.true_xor, ← decide_not]
      exact decide_eq_decide.mpr (by omega)
    · rw [update_of_ne hi', getLsbD_allOnes]
      exact decide_eq_decide.mpr (by omega)
  · simp only; omega
  · refine ⟨rfl, by dsimp only; omega, by simp, fun i hi => ?_⟩
    simp only [getLsbD_allOnes, Finset.mem_range] at hi ⊢
    exact decide_eq_decide.mpr (by omega)
  · dsimp only
    by_contra! hsmall
    refine h0 ⟨fun hzero => hsmall.1 (eq_of_toNat_eq hzero), ?_⟩
    rw [Nat.mod_eq_of_lt (by omega)]
    omega

/-- On a bitmap that was made, whatever was called, the calls do what they do on the set of free indices. -/
theorem bitmap_refines (wide : Bool) (nbits : BitVec 32) :
    match bitmapCreate wide nbits with
    | none => nbits = 0 ∨ 2 ^ 32 ≤ nbits.toNat + 32
    | some b₀ => ∀ b free, Relation.ReflTransGen (Step nbits.toNat) (b₀, .range nbits.toNat) (b, free) →
      (∃ r b', bitmapAlloc b = some (r, b') ∧ (r = none ↔ free = ∅) ∧ ∀ i ∈ r, IsLeast ↑free i ∧ i < nbits.toNat) ∧
      ∀ i < nbits.toNat, (i ∉ free → ∃ b', bitmapFree b i = some b') ∧ bitmapTest b i = some (decide (i ∈ free)) := by
  have hcreate := bitmapCreate_refines wide nbits
  split at hcreate
  · exact hcreate
  · intro b free hrun
    have h : Refines nbits.toNat b free := Refines.run hrun hcreate
    obtain ⟨r, b', heq, hnone, hleast, -⟩ := h.alloc
    refine ⟨⟨r, b', heq, hnone, fun i hi => ⟨hleast i hi, h.lt i (hleast i hi).1⟩⟩, fun i hi => ⟨fun hused => ?_, ?_⟩⟩
    · obtain ⟨b', heq, -⟩ := h.insert hi hused
      exact ⟨b', heq⟩
    · rw [bitmapTest, if_pos (hi.trans_eq h.nbits.symm), ← h.bit i (hi.trans_le h.le)]
      simp only [and_mask_ne_zero_iff, Bool.decide_eq_true]

end UcoreKernel.Freemap
