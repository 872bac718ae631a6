import UcoreKernel.Lib.RadixTable
import UcoreKernel.Mm.Vmm

/-!
`unmap_range` of `kern-ucore/glue-ucore/pmm.c`, over page tables of any number of levels.

A port has two levels of page tables (i386) or four (x86_64); the functions of the levels that it does not
have are replaced by the next lower one at compile time. A page table entry is anything, with 0 for none:
what `page_remove_pte` does with the page or the swap entry behind it is left out.
-/

namespace UcoreKernel.Vmm

open RadixTable Radix

/-- The page tables of a port: how the digits of an address are counted, the level of the tables that
`pgdir` points to, and the width of an address. -/
structure Paging where
  radix : Radix
  top : ℕ
  wordBits : ℕ

variable {β : Type} [Zero β] [DecidableEq β]

section Loops

variable (G : Paging)

/-- The loop of `unmap_range_pte`. -/
def unmapPteLoop (stop : ℕ) : ℕ → Table β 0 → ℕ → Option (Table β 0)
  | 0, _, _ => none
  | fuel + 1, pte, start =>
    let i := G.radix.index 0 start
    -- `page_remove_pte`
    let pte := if G.radix.lookup 0 pte start ≠ 0 then Radix.setEntry pte i 0 else pte
    let start := (start + G.radix.unit) % 2 ^ G.wordBits
    if start ≠ 0 ∧ start < stop then unmapPteLoop stop fuel pte start else some pte

/-- `unmap_range_pte`. -/
def unmapRangePte (pte : Table β 0) (start stop : ℕ) : Option (Table β 0) :=
  if start < stop ∧ stop ≤ G.radix.span 1 ∧ start % G.radix.unit = 0 ∧ stop % G.radix.unit = 0 then
    unmapPteLoop G stop (stop - start) pte start
  else none

/-- The part of the range in one entry of an upper level, if there is a table; `lower` is the function of the
next lower level. -/
def unmapEntry {k : ℕ} (lower : Table β k → ℕ → ℕ → Option (Table β k)) (t : Table β (k + 1))
    (la off size : ℕ) : Option (Table β (k + 1)) :=
  let i := G.radix.index (k + 1) la
  match t i with
  | none => some t
  | some sub => do
      let sub ← lower sub off (off + size)
      some (Radix.setSub t i sub)

/-- The loop of the upper levels. -/
def unmapUpperLoop {k : ℕ} (lower : Table β k → ℕ → ℕ → Option (Table β k)) (stop : ℕ) :
    ℕ → Table β (k + 1) → ℕ → ℕ → Option (Table β (k + 1))
  | 0, _, _, _ => none
  | fuel + 1, t, start, la => do
      let off := start - la
      let size := min (G.radix.span (k + 1) - off) (stop - start)
      let t ← unmapEntry G lower t la off size
      let start := (start + size) % 2 ^ G.wordBits
      let la := (la + G.radix.span (k + 1)) % 2 ^ G.wordBits
      if start ≠ 0 ∧ start < stop then unmapUpperLoop lower stop fuel t start la else some t

/-- `unmap_range_pte` on the lowest level, and `unmap_range_pmd` and `unmap_range_pud` above it. -/
def unmapRangeUpper : (k : ℕ) → Table β k → ℕ → ℕ → Option (Table β k)
  | 0, t, start, stop => unmapRangePte G t start stop
  | k + 1, t, start, stop =>
    if start < stop ∧ stop ≤ G.radix.span (k + 2) then
      unmapUpperLoop G (unmapRangeUpper k) stop (stop - start) t start
        (start - start % G.radix.span (k + 1))
    else none

/-- `unmap_range_pgd`. -/
def unmapRangePgd (t : Table β (G.top + 1)) (start stop : ℕ) : Option (Table β (G.top + 1)) :=
  unmapUpperLoop G (unmapRangeUpper G G.top) stop (stop - start) t start
    (start - start % G.radix.span (G.top + 1))

end Loops

/-! ### What is left in the tables -/

variable {G : Paging}

/-- The entries of the range are gone, among the addresses below a bound. -/
def Cleared (G : Paging) (k : ℕ) (bound start stop : ℕ) (t t' : Table β k) : Prop :=
  ∀ x < bound, G.radix.lookup k t' x = if start ≤ x ∧ x < stop then 0 else G.radix.lookup k t x

variable {k start stop : ℕ}

/-- A range is cleared after the one before it. -/
lemma Cleared.trans {bound mid : ℕ} {t t₁ t₂ : Table β k} (h : Cleared G k bound start mid t t₁)
    (h' : Cleared G k bound mid stop t₁ t₂) (hstart : start ≤ mid) (hmid : mid ≤ stop) :
    Cleared G k bound start stop t t₂ := by
  intro x hx
  rw [h' x hx, h x hx]
  split_ifs <;> first | rfl | omega

/-- Two addresses with the same digit, in a table. -/
lemma index_eq_iff {x y : ℕ} (hx : x < G.radix.span (k + 1)) (hy : y < G.radix.span (k + 1))
    (hdvd : G.radix.span k ∣ y) : G.radix.index k x = G.radix.index k y ↔ y ≤ x ∧ x < y + G.radix.span k := by
  have hpos := G.radix.span_pos k
  obtain ⟨m, rfl⟩ := hdvd
  rw [index_of_lt _ hx, index_of_lt _ hy, Nat.mul_div_cancel_left _ hpos, Nat.div_eq_iff hpos]
  constructor
  · grind
  · grind

/-- One turn of the loop of `unmap_range_pte`. -/
lemma cleared_entry (t : Table β 0) (hlt : start < G.radix.span 1) (hdvd : G.radix.unit ∣ start) :
    Cleared G 0 (G.radix.span 1) start (start + G.radix.unit) t
      (if G.radix.lookup 0 t start ≠ 0 then setEntry t (G.radix.index 0 start) 0 else t) := by
  intro x hx
  have hindex := index_eq_iff hx hlt hdvd
  rw [span] at hindex
  split_ifs with hne hin hin
  · rw [lookup_setEntry, if_pos (hindex.mpr hin)]
  · rw [lookup_setEntry, if_neg (fun h => hin (hindex.mp h))]
  · grind [lookup]
  · rfl

variable {fuel : ℕ}

/-- The loop of `unmap_range_pte`. -/
lemma unmapPteLoop_spec (t : Table β 0) (hlt : start < stop)
    (hle : stop ≤ G.radix.span 1) (hstart : G.radix.unit ∣ start) (hstop : G.radix.unit ∣ stop)
    (hfuel : stop - start ≤ fuel) (hword : stop < 2 ^ G.wordBits) :
    ∃ t', unmapPteLoop G stop fuel t start = some t' ∧ Cleared G 0 (G.radix.span 1) start stop t t' := by
  induction fuel generalizing t start with
  | zero => omega
  | succ fuel ih =>
    have hpos := G.radix.unit_pos
    have hturn := cleared_entry t (hlt.trans_le hle) hstart
    have hnext : start + G.radix.unit ≤ stop := by
      have := Nat.le_of_dvd (by omega) (Nat.dvd_sub hstop hstart)
      omega
    rw [unmapPteLoop, Nat.mod_eq_of_lt (by omega)]
    generalize (if G.radix.lookup 0 t start ≠ 0 then setEntry t (G.radix.index 0 start) 0 else t) = t1 at hturn ⊢
    by_cases hmore : start + G.radix.unit ≠ 0 ∧ start + G.radix.unit < stop
    · rw [if_pos hmore]
      obtain ⟨t', hloop, hrest⟩ := ih t1 hmore.2 (dvd_add hstart (dvd_refl _)) (by omega)
      exact ⟨t', hloop, hturn.trans hrest (by omega) hnext⟩
    · grind

/-- What the function of a level has to do. -/
def ClearsRange (G : Paging) (k : ℕ) (f : Table β k → ℕ → ℕ → Option (Table β k)) : Prop :=
  ∀ t start stop, start < stop → stop ≤ G.radix.span (k + 1) → G.radix.unit ∣ start → G.radix.unit ∣ stop →
    stop < 2 ^ G.wordBits → ∃ t', f t start stop = some t' ∧ Cleared G k (G.radix.span (k + 1)) start stop t t'

variable {la : ℕ} {lower : Table β k → ℕ → ℕ → Option (Table β k)}

/-- One turn of the loop of an upper level: a part of the range within one entry. -/
lemma unmapEntry_spec {off size : ℕ}
    (hlower : ClearsRange G k lower) (t : Table β (k + 1)) (hla : G.radix.span (k + 1) ∣ la)
    (hlt : la < G.radix.span (k + 2)) (hsize : 0 < size) (hend : off + size ≤ G.radix.span (k + 1))
    (hoff : G.radix.unit ∣ off) (hdvd : G.radix.unit ∣ off + size) (hword : off + size < 2 ^ G.wordBits) :
    ∃ t', unmapEntry G lower t la off size = some t' ∧
      Cleared G (k + 1) (G.radix.span (k + 2)) (la + off) (la + off + size) t t' := by
  rw [unmapEntry]
  cases hsub : t (G.radix.index (k + 1) la) with
  | none =>
    refine ⟨t, rfl, fun x hx => ?_⟩
    split_ifs with hin
    · -- there is no table, so there are no entries
      grind [index_eq_iff, lookup_of_none]
    · rfl
  | some sub =>
    obtain ⟨sub', hrun, hcleared⟩ := hlower sub off (off + size) (by omega) hend hoff hdvd hword
    refine ⟨setSub t (G.radix.index (k + 1) la) sub', by simp [hrun], fun x hx => ?_⟩
    have hindex := index_eq_iff hx hlt hla
    rw [lookup_setSub]
    by_cases hin : la ≤ x ∧ x < la + G.radix.span (k + 1)
    · obtain ⟨m, rfl⟩ := hla
      obtain ⟨y, rfl⟩ := Nat.exists_eq_add_of_le hin.1
      have hy : y < G.radix.span (k + 1) := by omega
      have hold : G.radix.lookup (k + 1) t (G.radix.span (k + 1) * m + y) = G.radix.lookup k sub y := by
        rw [lookup_of_some _ (by rw [hindex.mpr hin, hsub]), add_comm, lookup_add_mul]
      rw [if_pos (hindex.mpr hin), add_comm _ y, lookup_add_mul, hcleared y hy, add_comm y, hold]
      split_ifs <;> first | rfl | omega
    · grind

/-- The loop of an upper level. -/
lemma unmapUpperLoop_spec (hlower : ClearsRange G k lower) (t : Table β (k + 1)) (hlt : start < stop)
    (hle : stop ≤ G.radix.span (k + 2)) (hstart : G.radix.unit ∣ start) (hstop : G.radix.unit ∣ stop)
    (hla : G.radix.span (k + 1) ∣ la) (hbelow : la ≤ start) (habove : start < la + G.radix.span (k + 1))
    (hfuel : stop - start ≤ fuel) (hword : stop < 2 ^ G.wordBits) :
    ∃ t', unmapUpperLoop G lower stop fuel t start la = some t' ∧
      Cleared G (k + 1) (G.radix.span (k + 2)) start stop t t' := by
  induction fuel generalizing t start la with
  | zero => omega
  | succ fuel ih =>
    have hunit := G.radix.unit_dvd_span (k + 1)
    have hdvd : G.radix.unit ∣ la := hunit.trans hla
    -- the part of the range in this entry ends at the end of the entry, or of the range
    obtain ⟨size, hsize, hcases⟩ : ∃ size, size = min (G.radix.span (k + 1) - (start - la)) (stop - start) ∧
          (start + size = stop ∧ stop ≤ la + G.radix.span (k + 1) ∨
            start + size = la + G.radix.span (k + 1) ∧ start + size < stop) := by
      refine ⟨_, rfl, ?_⟩
      obtain h | h := le_or_gt (stop - start) (G.radix.span (k + 1) - (start - la))
      · grind
      · grind
    have hend : G.radix.unit ∣ start - la + size := by
      obtain ⟨h, -⟩ | ⟨h, -⟩ := hcases
      · rw [show start - la + size = stop - la by omega]
        exact Nat.dvd_sub hstop hdvd
      · rw [show start - la + size = G.radix.span (k + 1) by omega]
        exact hunit
    obtain ⟨t1, hrun, hturn⟩ := unmapEntry_spec hlower t hla (by omega)
      (by omega) (by omega)
      (Nat.dvd_sub hstart hdvd) hend (by omega)
    rw [show la + (start - la) = start by omega] at hturn
    rw [unmapUpperLoop]
    dsimp only
    rw [← hsize, hrun, Nat.mod_eq_of_lt (by omega), Option.bind_eq_bind, Option.bind_some]
    split_ifs with hmore
    · obtain ⟨hnext, -⟩ := hcases.resolve_left (by omega)
      rw [← hnext, Nat.mod_eq_of_lt (by omega)]
      have hpos := G.radix.span_pos (k + 1)
      have hdvd1 : G.radix.unit ∣ start + size := hnext ▸ dvd_add hdvd hunit
      have hla1 : G.radix.span (k + 1) ∣ start + size := hnext ▸ dvd_add hla (dvd_refl _)
      obtain ⟨t', hloop, hrest⟩ := ih t1 hmore.2 hdvd1 hla1 le_rfl (by omega) (by omega)
      exact ⟨t', hloop, hturn.trans hrest (by omega) (by omega)⟩
    · grind

/-- The functions of all levels but the highest one. -/
lemma unmapRangeUpper_clears (k : ℕ) : ClearsRange G k (unmapRangeUpper G k : Table β k → ℕ → ℕ → _) := by
  induction k with
  | zero =>
    intro t start stop hlt hle hstart hstop hword
    rw [unmapRangeUpper, unmapRangePte, if_pos ⟨hlt, hle, Nat.mod_eq_zero_of_dvd hstart, Nat.mod_eq_zero_of_dvd hstop⟩]
    exact unmapPteLoop_spec t hlt hle hstart hstop le_rfl hword
  | succ k ih =>
    intro t start stop hlt hle hstart hstop hword
    have hmod := Nat.mod_lt start (G.radix.span_pos (k + 1))
    have hsub := Nat.mod_le start (G.radix.span (k + 1))
    rw [unmapRangeUpper, if_pos ⟨hlt, hle⟩]
    exact unmapUpperLoop_spec ih t hlt hle hstart hstop (Nat.dvd_sub_mod start) (by omega) (by omega) le_rfl hword

/-- `unmap_range_pgd` returns; the entries of the range are 0, and the others are as they were. -/
lemma unmapRangePgd_spec (t : Table β (G.top + 1)) (hlt : start < stop)
    (hle : stop ≤ G.radix.span (G.top + 2)) (hstart : G.radix.unit ∣ start) (hstop : G.radix.unit ∣ stop)
    (hword : stop < 2 ^ G.wordBits) : ∃ t', unmapRangePgd G t start stop = some t' ∧
      Cleared G (G.top + 1) (G.radix.span (G.top + 2)) start stop t t' := by
  have hmod := Nat.mod_lt start (G.radix.span_pos (G.top + 1))
  have hsub := Nat.mod_le start (G.radix.span (G.top + 1))
  exact unmapUpperLoop_spec (unmapRangeUpper_clears G.top) t hlt hle hstart hstop (Nat.dvd_sub_mod start)
    (by omega) (by omega) le_rfl hword

end UcoreKernel.Vmm
