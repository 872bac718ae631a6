import Mathlib.Data.BitVec
import UcoreKernel.Lib.Guarded
import UcoreKernel.Mm.BuddySystem

/-!
`kern-ucore/arch/i386/glue-ucore/pmm.c`: `alloc_pages` and `free_pages`, the wrappers around the
buddy allocator that count the pages in use on one processor.

The wrapper adds the size of a request to `used_pages` whether or not there is a page to return.
And the allocator gives the tail of a block back through the wrapper, so that the tail is
subtracted although it was never added.

* `used_plus_free_constant_iff`: the sum of the two counters stays the same exactly in the runs
  whose requests ask for powers of two and do not fail.
-/

namespace UcoreKernel.PageCount

open Pmm Guarded

/-- The allocator and `used_pages`. -/
structure Counted where
  buddy : Buddy
  usedPages : BitVec 32

/-- `free_pages`. -/
def freePages (base n : ℕ) (c : Counted) : Except Panic Counted := do
  let b ← Pmm.freePages base n c.buddy
  return ⟨b, c.usedPages - BitVec.ofNat 32 n⟩

/-- `buddy_alloc_pages`, which frees the tail of the block with the `free_pages` above. -/
def buddyAllocPages (n : ℕ) (c : Counted) : Except Panic (Option ℕ × Counted) :=
  if 0 < n then do
    let order ← getorder n
    let r ← allocPagesSub order c.buddy
    match r.1 with
    | some page =>
      if n ≠ 2 ^ order then do
        let c' ← freePages (page + n) (2 ^ order - n) { c with buddy := r.2 }
        return (some page, c')
      else return (some page, { c with buddy := r.2 })
    | none => return (none, { c with buddy := r.2 })
  else .error .noPages

/-- The panics of the allocator, and the one of `try_free_pages`. -/
inductive CallPanic where
  | pmm (p : Panic)
  /-- `panic("kswapd call try_free_pages!!.\n")` -/
  | kswapd
  deriving DecidableEq, Repr

/-- `try_free_pages`: `swapOn` tells whether `swap_init_ok` is set and `kswapd` runs, `byKswapd`
whether it is `kswapd` that asks. The sleep of the caller until `kswapd_wakeup_all` lies between
two calls of the run. -/
def tryFreePages (swapOn byKswapd : Bool) (n : ℕ) : Except CallPanic Bool :=
  if !swapOn then .ok false
  else if byKswapd then .error .kswapd
  else .ok (decide (n < 2 ^ 7))

/-- The allocator with the owners of the pages, and `used_pages` of the processor. -/
structure Accounts where
  system : System
  usedPages : BitVec 32

/-- `nr_used_pages() + nr_free_pages()`. -/
def Accounts.sum (s : Accounts) : BitVec 32 :=
  s.usedPages + BitVec.ofNat 32 (nrFreePages s.system.buddy)

/-- One turn of the loop of `alloc_pages`, or a call of `free_pages`. -/
inductive Call where
  | alloc (n : ℕ) (swapOn byKswapd : Bool)
  | free (base n : ℕ)
  deriving DecidableEq, Repr

/-- The end of a turn of `alloc_pages`: with no page, the next turn follows if `try_free_pages`
says so. -/
def endTurn (s : Accounts) (n : ℕ) (swapOn byKswapd : Bool) : Option ℕ × Counted → Except CallPanic Accounts
  | (some page, c) =>
    let owner p := if page ≤ p ∧ p < page + n then some s.system.allocations else s.system.owner p
    .ok ⟨⟨c.buddy, owner, s.system.allocations + 1⟩, c.usedPages + BitVec.ofNat 32 n⟩
  | (none, c) => do
      let again ← tryFreePages swapOn byKswapd n
      let s' : Accounts := ⟨{ s.system with buddy := c.buddy }, c.usedPages⟩
      return if again then s' else { s' with usedPages := c.usedPages + BitVec.ofNat 32 n }

/-- A call. -/
def step (s : Accounts) : Call → Except CallPanic Accounts
  | .alloc n swapOn byKswapd => do
      let r ← (buddyAllocPages n ⟨s.system.buddy, s.usedPages⟩).mapError .pmm
      endTurn s n swapOn byKswapd r
  | .free base n => do
      let c ← (freePages base n ⟨s.system.buddy, s.usedPages⟩).mapError .pmm
      let owner p := if base ≤ p ∧ p < base + n then none else s.system.owner p
      return ⟨{ s.system with buddy := c.buddy, owner := owner }, c.usedPages⟩

/-- What the users are allowed to call, as for the allocator alone. -/
def Legal (s : Accounts) : Call → Prop
  | .alloc n _ _ => Op.Allowed s.system (.alloc n)
  | .free base n => Op.Allowed s.system (.free base n)

/-- The request is for a power of two and is met, or it is not the last turn. -/
def Balanced (s : Accounts) : Call → Prop
  | .alloc n swapOn byKswapd =>
    match Pmm.allocPages n s.system.buddy with
    | .ok (some _, _) => ∃ k, n = 2 ^ k
    | .ok (none, _) => tryFreePages swapOn byKswapd n ≠ .ok false
    | .error _ => True
  | .free _ _ => True

/-! ### The number of pages -/

variable {zones : List (ℕ × ℕ)}

lemma ncard_Ico (base n : ℕ) : (Set.Ico base (base + n)).ncard = n := by
  rw [← Finset.coe_Ico, Set.ncard_coe_finset, Nat.card_Ico, Nat.add_sub_cancel_left]

/-- The pages of the zones. -/
def zonePages (zones : List (ℕ × ℕ)) : Set ℕ := {p | ∃ z, InZone zones z p}

lemma finite_zonePages {b : Buddy} {used : Set ℕ} (h : Inv zones b used) : (zonePages zones).Finite := by
  refine (Set.finite_Iio b.npage).subset ?_
  rintro p ⟨z, hz⟩
  exact (h.zonePage hz).1

lemma owned_subset {s : System} (h : SysInv zones s) : s.owned ⊆ zonePages zones := by
  intro p hp
  obtain ⟨id, hid⟩ := Option.ne_none_iff_exists'.mp hp
  obtain ⟨-, z, hz, -⟩ := h.together hid hid
  exact ⟨z, hz⟩

/-- Every page of the zones is free or in use. -/
lemma SysInv.count {s : System} (h : SysInv zones s) :
    nrFreePages s.buddy + s.owned.ncard = (zonePages zones).ncard := by
  have hfin := finite_zonePages h.inv
  rw [nrFreePages_eq h.inv, ← Set.ncard_sdiff_add_ncard_of_subset (owned_subset h) hfin]
  rfl

/-! ### What a call does to the counter -/

variable {n order : ℕ}

/-- The allocator with the counter is the allocator; the tail it gives back is subtracted. -/
lemma buddyAllocPages_eq (ho : getorder n = .ok order) (c : Counted) :
    buddyAllocPages n c = (Pmm.allocPages n c.buddy).map fun r => (r.1, ⟨r.2, if r.1 = none then c.usedPages
        else c.usedPages - BitVec.ofNat 32 (2 ^ order - n)⟩) := by
  unfold buddyAllocPages Pmm.allocPages
  split_ifs with hn
  · rw [ho, ok_bind, ok_bind]
    cases hsub : allocPagesSub order c.buddy with
    | error e => rfl
    | ok r =>
      obtain ⟨page, b⟩ := r
      rw [ok_bind, ok_bind]
      cases page with
      | none => rfl
      | some page =>
        dsimp only
        by_cases hexact : n = 2 ^ order
        · rw [if_neg (not_not.mpr hexact), if_neg (not_not.mpr hexact), hexact, Nat.sub_self]
          simp [Except.map]
        · rw [if_pos (hexact), if_pos (hexact), freePages]
          cases Pmm.freePages (page + n) (2 ^ order - n) b with
          | error | ok => rfl
  · rfl

/-- How far the counter is off the number of pages in use. -/
noncomputable def Accounts.drift (s : Accounts) : BitVec 32 :=
  s.usedPages - BitVec.ofNat 32 s.system.owned.ncard

lemma ofNat_ne_zero (hpos : 0 < n) (hn : n ≤ 2 ^ maxOrder) : BitVec.ofNat 32 n ≠ 0 := by
  intro h
  have hmod := congrArg BitVec.toNat h
  rw [BitVec.toNat_ofNat, Nat.mod_eq_of_lt (hn.trans_lt (by decide))] at hmod
  exact hpos.ne' hmod

variable {s : Accounts}

/-- A turn that finds a block takes the tail of the block off the counter once too often. -/
lemma step_alloc_some (swapOn byKswapd : Bool) {page : ℕ} {b' : Buddy}
    (h : SysInv zones s.system) (ho : getorder n = .ok order)
    (hrun : Pmm.allocPages n s.system.buddy = .ok (some page, b'))
    (hdisj : Disjoint (Set.Ico page (page + n)) s.system.owned)
    (hinv : SysInv zones ⟨b', fun p => if page ≤ p ∧ p < page + n then
      some s.system.allocations else s.system.owner p, s.system.allocations + 1⟩) :
    ∃ s', step s (.alloc n swapOn byKswapd) = .ok s' ∧ SysInv zones s'.system ∧
      s'.drift = s.drift - BitVec.ofNat 32 (2 ^ order - n) := by
  refine ⟨_, by rw [step, buddyAllocPages_eq ho, hrun]; rfl, hinv, ?_⟩
  have hcard : (s.system.owned ∪ Set.Ico page (page + n)).ncard = s.system.owned.ncard + n := by
    rw [Set.ncard_union_eq hdisj.symm ((finite_zonePages h.inv).subset (owned_subset h))
      (Set.finite_Ico _ _), ncard_Ico]
  unfold Accounts.drift
  rw [owned_alloc, hcard, if_neg (Option.some_ne_none page), BitVec.ofNat_add]
  ring

/-- The sizes that leave no tail are the powers of two. -/
lemma exists_pow_iff (hfit : n ≤ 2 ^ order) (hmin : ∀ k < order, 2 ^ k < n) :
    (∃ k, n = 2 ^ k) ↔ 2 ^ order - n = 0 := by
  constructor
  · rintro ⟨k, rfl⟩
    have hk : ¬k < order := fun hlt => lt_irrefl _ (hmin k hlt)
    exact Nat.sub_eq_zero_of_le (Nat.pow_le_pow_right (by decide) (not_lt.mp hk))
  · intro hzero
    exact ⟨order, by omega⟩

variable {swapOn byKswapd : Bool}

/-- A turn that finds no block leaves the pages alone; if it is the last one, the counter still
moves on by the size of the request. -/
lemma step_alloc_none (ho : getorder n = .ok order)
    (hrun : Pmm.allocPages n s.system.buddy = .ok (none, s.system.buddy)) :
    step s (.alloc n swapOn byKswapd) = (tryFreePages swapOn byKswapd n).map fun again =>
      if again then s else { s with usedPages := s.usedPages + BitVec.ofNat 32 n } := by
  rw [step, buddyAllocPages_eq ho, hrun]
  change endTurn s n swapOn byKswapd (none, ⟨s.system.buddy, s.usedPages⟩) = _
  unfold endTurn
  cases tryFreePages swapOn byKswapd n with
  | error | ok => rfl

lemma tryFreePages_error {p : CallPanic} (h : tryFreePages swapOn byKswapd n = .error p) : p = .kswapd := by
  unfold tryFreePages at h
  split_ifs at h
  cases h
  rfl

/-- `free_pages` of pages that are in use takes their number off the counter. -/
lemma step_free {s : Accounts} {base n id : ℕ} (h : SysInv zones s.system) (hpos : 0 < n)
    (hown : ∀ p, base ≤ p → p < base + n → s.system.owner p = some id) :
    ∃ s', step s (.free base n) = .ok s' ∧ SysInv zones s'.system ∧ s'.drift = s.drift := by
  obtain ⟨s', r, hstep, hinv⟩ := h.freePages hpos hown
  obtain ⟨b', hrun, hstep⟩ := bind_eq_ok_iff.mp hstep
  cases hstep
  refine ⟨_, by rw [step, freePages, hrun]; rfl, hinv, ?_⟩
  have hsub : Set.Ico base (base + n) ⊆ s.system.owned := by
    intro p hp
    change s.system.owner p ≠ none
    rw [hown p hp.1 hp.2]
    exact Option.some_ne_none id
  have hcard := Set.ncard_sdiff_add_ncard_of_subset hsub ((finite_zonePages h.inv).subset (owned_subset h))
  grind [ncard_Ico, Accounts.drift, owned_free, BitVec.ofNat_add]

/-- What one call does: the counter drifts away from the number of pages in use exactly in the
calls that are not balanced. -/
lemma step_spec {c : Call} (h : SysInv zones s.system) (hl : Legal s c) :
    Except.Ensures (· = .kswapd ∧ Balanced s c) (step s c) fun s' =>
      SysInv zones s'.system ∧ (s'.drift = s.drift ↔ Balanced s c) := by
  cases c with
  | alloc n swapOn byKswapd =>
    obtain ⟨hpos, hn⟩ := hl
    obtain ⟨order, ho, hle, hfit, hmin⟩ := getorderLoop_spec (maxOrder + 1) 0 (zero_add _) hn
      fun k hk => absurd hk (Nat.not_lt_zero k)
    obtain ⟨_, -, ⟨hrun, -⟩ | ⟨page, z, b', hrun, hz, hdisj, -⟩⟩ := allocPages_spec h.inv hpos hn
    · -- no block: the turn depends on `try_free_pages`
      rw [step_alloc_none ho hrun, Balanced, hrun]
      cases htry : tryFreePages swapOn byKswapd n with
      | error p => exact ⟨tryFreePages_error htry, nofun⟩
      | ok again =>
        cases again with
        | true => exact ⟨h, iff_of_true rfl nofun⟩
        | false =>
          refine ⟨h, iff_of_false (fun hdrift => ?_) fun hne => hne rfl⟩
          grind [ofNat_ne_zero, Accounts.drift]
    · obtain ⟨s', r, hstep, hinv⟩ := h.alloc hpos hn
      rw [Pmm.step, hrun] at hstep
      cases hstep
      obtain ⟨s', hrun', hinv', hdrift⟩ :=
        step_alloc_some swapOn byKswapd h ho hrun hdisj hinv
      rw [hrun', Balanced, hrun, Except.Ensures.ok_iff, hdrift]
      rw [exists_pow_iff hfit hmin, sub_eq_self]
      refine ⟨hinv', fun hzero => ?_, fun hzero => by rw [hzero]; rfl⟩
      by_contra hne
      have hpow := Nat.pow_le_pow_right (show 0 < 2 by decide) hle
      grind [ofNat_ne_zero]
  | free base n =>
    obtain ⟨hpos, id, hown⟩ := hl
    obtain ⟨s', hstep, hinv, hdrift⟩ := step_free h hpos hown
    rw [hstep, Except.Ensures.ok_iff]
    exact ⟨hinv, iff_of_true hdrift trivial⟩

/-! ### Runs -/

/-- The two counters add up to what they did when `pmm_init_ap` set `used_pages` to zero, and
`used_pages` is the number of pages the callers have taken since then, less those they have given
back. -/
def Conserved (s₀ : System) (s : Accounts) : Prop :=
  s.sum = BitVec.ofNat 32 (nrFreePages s₀.buddy) ∧
    s.usedPages = BitVec.ofNat 32 s.system.owned.ncard - BitVec.ofNat 32 s₀.owned.ncard

lemma conserved_iff {s₀ : System} (h₀ : SysInv zones s₀) (h : SysInv zones s.system) :
    Conserved s₀ s ↔ s.drift = -BitVec.ofNat 32 s₀.owned.ncard := by
  have hcount : BitVec.ofNat 32 (nrFreePages s.system.buddy) + BitVec.ofNat 32 s.system.owned.ncard =
      BitVec.ofNat 32 (nrFreePages s₀.buddy) + BitVec.ofNat 32 s₀.owned.ncard := by
    rw [← BitVec.ofNat_add, ← BitVec.ofNat_add, SysInv.count h, SysInv.count h₀]
  rw [Conserved, Accounts.sum, Accounts.drift]
  constructor
  · rintro ⟨-, hused⟩
    rw [hused]
    ring
  · grind

/-- **Page accounting.**  After the calls of the start of the kernel and `pmm_init_ap`, in a run of
calls that keep to the contract of the allocator, `nr_used_pages` plus `nr_free_pages` stays what it
was, and `nr_used_pages` counts the pages the callers hold, exactly if every request for pages is
for a power of two and does not fail. -/
theorem used_plus_free_constant_iff (npage : ℕ) (pages : ℕ → Page) (zones : List (ℕ × ℕ))
    (b₀ : Buddy) (hinit : initZones zones (buddyInit npage pages) = .ok b₀) (boot : List Op)
    (hboot : AllAllowed ⟨b₀, fun _ => none, 0⟩ boot) (s₀ : System)
    (hrun : run ⟨b₀, fun _ => none, 0⟩ boot = .ok s₀) (calls : List Call)
    (hlegal : AllSafe step Legal ⟨s₀, 0⟩ calls) : CorrectUpTo step (Conserved s₀) (· = .kswapd) ⟨s₀, 0⟩ calls ↔
      AllSafe step Balanced ⟨s₀, 0⟩ calls := by
  have h0 : SysInv zones s₀ := by
    obtain ⟨s, hrun', h⟩ := run_inv boot (initSystem_inv hinit) hboot
    rw [hrun] at hrun'
    cases hrun'
    exact h
  refine correctUpTo_iff_allSafe_of_legal
    (fun s => SysInv zones s.system ∧ s.drift = -BitVec.ofNat 32 s₀.owned.ncard) ?_ ?_ ?_ ?_
    calls hlegal
  · grind [conserved_iff]
  · grind [step_spec]
  · rintro s c ⟨h, hdrift⟩ hl hbal
    have hstep := step_spec h hl
    cases hs : step s c with
    | error p =>
      rw [hs] at hstep
      exact absurd hstep.2 hbal
    | ok s' =>
      rw [hs] at hstep
      intro hcons
      exact hbal (hstep.2.mp (((conserved_iff h0 hstep.1).mp hcons).trans hdrift.symm))
  · refine ⟨h0, ?_⟩
    rw [Accounts.drift, zero_sub]

/-- One zone of nine pages: three boot pages, then four pages are taken. -/
theorem used_plus_free_constant_iff_ninePages :
    ∃ b₀ s₀, initZones [(2, 9)] (buddyInit 16 fun _ => ⟨0, 0, 0, 0⟩) = .ok b₀ ∧
      run ⟨b₀, fun _ => none, 0⟩ [.alloc 3] = .ok s₀ ∧
      CorrectUpTo step (Conserved s₀) (· = .kswapd) ⟨s₀, 0⟩ [.alloc 4 false false] := by
  refine ⟨_, _, rfl, rfl, (used_plus_free_constant_iff 16 (fun _ => ⟨0, 0, 0, 0⟩) [(2, 9)] _ rfl
    [.alloc 3] ⟨⟨by decide, by decide⟩, fun _ _ _ => trivial⟩ _ rfl _ ?_).mpr ?_⟩
  · exact allSafe_of_forall_mem (by simp [Legal, Op.Allowed, maxOrder]) _
  · exact ⟨⟨2, rfl⟩, trivial⟩

/-- On nine free pages a request for three of them takes one off the sum, and a request for sixteen
that fails adds sixteen to it. -/
theorem sum_changes_ninePages : ∃ b₀ s₁ s₂, initZones [(2, 9)] (buddyInit 16 fun _ => ⟨0, 0, 0, 0⟩) = .ok b₀ ∧
      AllSafe step Legal ⟨⟨b₀, fun _ => none, 0⟩, 0⟩ [.alloc 3 false false, .alloc 16 false false] ∧
      step ⟨⟨b₀, fun _ => none, 0⟩, 0⟩ (.alloc 3 false false) = .ok s₁ ∧
      step s₁ (.alloc 16 false false) = .ok s₂ ∧
      Accounts.sum ⟨⟨b₀, fun _ => none, 0⟩, 0⟩ = 9 ∧ s₁.sum = 8 ∧ s₂.sum = 24 := by
  refine ⟨_, _, _, rfl, ?_, rfl, rfl, ?_, ?_, ?_⟩
  · exact allSafe_of_forall_mem (by simp [Legal, Op.Allowed, maxOrder]) _
  all_goals decide +kernel

end UcoreKernel.PageCount
