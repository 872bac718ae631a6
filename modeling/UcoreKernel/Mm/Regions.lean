import UcoreKernel.Mm.VmmCalls

/-!
What the calls of `vmm.c` do to the regions of an address space and to its view of shared memory: a
region is added, the regions are cut at a range, or one region is split at a range strictly inside it.
-/

namespace UcoreKernel.Vmm

open Function Multiset Vma

variable {P : Type} {A : Layout} {K : Kmalloc} {s s' : St P} {start stop x : ℕ} {v : Vma}
  {b : Option (ℕ × ℕ)}

/-- `mm_map`: a region more, if it succeeds. -/
lemma mmMap_regions (hinv : MmInv A s.mm) (addr len : ℕ) (vmFlags : BitVec 32) :
    ∃ r s', mmMap A K s addr len vmFlags = .ok (r, s') ∧ MmInv A s'.mm ∧ s'.kernel.shmems = s.kernel.shmems ∧
      ((∃ e, r = .error e) ∧ s'.mm.regions = s.mm.regions ∨ (∃ a, r = .ok a) ∧
          (∀ v ∈ s.mm.regions, v.ApartFrom (A.roundDown addr) (A.rangeEnd addr len)) ∧
          s'.mm.regions = ⟨0, A.roundDown addr, A.rangeEnd addr len, vmFlags &&& ~~~vmShare, none, 0⟩ ::ₘ
            s.mm.regions) := by
  obtain ⟨r, s', hrun, hinv', -, -, hsh, -, herr, hok⟩ := mmMap_spec hinv addr len vmFlags
  refine ⟨r, s', hrun, hinv', hsh, ?_⟩
  cases r with
  | error e => grind [Mm.regions]
  | ok a =>
    obtain ⟨-, hfree, hperm, hnot, hvmas⟩ := hok a rfl
    refine .inr ⟨⟨a, rfl⟩, apart_regionsOf hfree, ?_⟩
    · have hkeep : ∀ c ∈ s.mm.mmapList, s'.mm.vmas c = s.mm.vmas c := fun c hc => by
        rw [hvmas, update_of_ne fun hEq : c = a => hnot (hEq ▸ hc)]
      rw [Mm.regions, regionsOf_of_perm hperm hkeep, hvmas, update_self]
      rfl

/-! ### What is left of the regions -/

section

variable (h : CutAt A start stop s s') (hback : Backed s.mm.regions)
include h hback

lemma CutAt.backed : Backed s'.mm.regions := by
  intro w hw
  rw [h.regions, mem_bind] at hw
  obtain ⟨v, hv, hw⟩ := hw
  exact (hback v hv).cut hw

/-- Cutting takes the addresses of the range away, and leaves the others where they are. -/
lemma CutAt.sees_iff : Sees A s'.mm.regions x b ↔ Sees A s.mm.regions x b ∧ ¬(start ≤ x ∧ x < stop) := by
  have hbind : Sees A s'.mm.regions x b ↔
      ∃ v ∈ s.mm.regions, Sees A (v.cut A start stop) x b := by
    simp only [Sees, h.regions, mem_bind]
    constructor
    · grind
    · grind
  rw [hbind]
  constructor
  · rintro ⟨v, hv, hx⟩
    rw [sees_cut (hback v hv) (h.oneSide v hv)] at hx
    exact ⟨⟨v, hv, hx.1⟩, hx.2⟩
  · rintro ⟨⟨v, hv, hx⟩, hout⟩
    exact ⟨v, hv, (sees_cut (hback v hv) (h.oneSide v hv)).mpr ⟨hx, hout⟩⟩

end

section Split

variable {rest : Multiset Vma}

variable (h : SplitAt A start stop v rest s s')
include h

lemma SplitAt.drift (k : ℕ) : s'.drift k = s.drift k := by
  have hupper : pointers {v.resized A stop v.vmEnd} k = pointers {v} k := pointers_singleton_congr rfl
  have hlower : pointers {(⟨0, v.vmStart, start, v.vmFlags, none, 0⟩ : Vma)} k = 0 :=
    pointers_singleton_none rfl
  rw [St.drift, St.drift, h.shmems, h.regions, h.old, pointers_cons, pointers_cons, hupper, hlower,
    zero_add, ← pointers_cons]

section

variable (hback : Backed s.mm.regions) (hshare : v.share = false)
include hback hshare

lemma SplitAt.backed : Backed s'.mm.regions := by
  rw [h.old, backed_cons] at hback
  rw [h.regions, backed_cons, backed_cons]
  refine ⟨hback.1.resized, ?_, hback.2⟩
  exact backed_private hshare rfl

/-- Splitting a private region takes the addresses of the range away, and leaves the others where
they are. -/
lemma SplitAt.sees_iff : Sees A s'.mm.regions x b ↔ Sees A s.mm.regions x b ∧ ¬(start ≤ x ∧ x < stop) := by
  have hlt := h.range
  have hlo := h.below
  have hhi := h.above
  have hv : v.Backed := by
    rw [h.old, backed_cons] at hback
    exact hback.1
  have hnone : v.shmem = none := hv.shmem_eq_none hshare
  -- the regions that stay are outside the range
  have hrest : Sees A rest x b → ¬(start ≤ x ∧ x < stop) := by
    rintro ⟨w, hw, ⟨h1, h2⟩, -⟩
    obtain ha | ha := h.apart w hw <;> omega
  have hupper : (v.resized A stop v.vmEnd).backing A x = none := by
    rw [backing, resized, hnone]
    rfl
  have hold : v.backing A x = none := by
    rw [backing, hnone]
    rfl
  rw [h.regions, h.old, sees_cons, sees_cons, sees_cons, hupper, hold]
  constructor
  · rintro (⟨⟨h1, h2⟩, hb⟩ | ⟨⟨h1, h2⟩, hb⟩ | hx)
    · dsimp only [resized] at h1 h2
      exact ⟨.inl ⟨⟨by omega, h2⟩, hb⟩, by omega⟩
    · dsimp only at h1 h2
      exact ⟨.inl ⟨⟨h1, by omega⟩, hb⟩, by omega⟩
    · exact ⟨.inr hx, hrest hx⟩
  · rintro ⟨⟨⟨h1, h2⟩, hb⟩ | hx, hout⟩
    · obtain hxs | hxs := lt_or_ge x start
      · exact .inr (.inl ⟨⟨h1, hxs⟩, hb⟩)
      · exact .inl ⟨⟨show stop ≤ x by omega, h2⟩, hb⟩
    · exact .inr (.inr hx)

end

/-- A split of a shared region makes a shared region without an object. -/
lemma SplitAt.lost (hshare : v.share = true) : ∃ w ∈ s'.mm.regions, w.share = true ∧ w.shmem = none := by
  rw [h.regions]
  exact ⟨⟨0, v.vmStart, start, v.vmFlags, none, 0⟩, mem_cons_of_mem (mem_cons_self _ rest), hshare, rfl⟩

end Split

/-! ### `mm_brk` -/

/-- What the rest of `mm_brk` has done, when the range was free: it is a part of a private region
now, unless there was no memory. -/
structure GrowPost (A : Layout) (start stop : ℕ) (s s' : St P) : Prop where
  backed : Backed s.mm.regions → Backed s'.mm.regions
  drift : ∀ k, s'.drift k = s.drift k
  sees : ∀ x b, Sees A s'.mm.regions x b → Sees A s.mm.regions x b ∨ start ≤ x ∧ x < stop
  shared : ∀ w ∈ s.mm.regions, w.share = true → w ∈ s'.mm.regions

/-- A private region grows into the range. -/
lemma growPost_of_grow (rest : Multiset Vma) (hsh : s'.kernel.shmems = s.kernel.shmems)
    (hold : s.mm.regions = v ::ₘ rest) (hnew : s'.mm.regions = { v with vmEnd := stop } ::ₘ rest)
    (hend : v.vmEnd = start) (hshare : v.share = false) : GrowPost A start stop s s' where
  backed := by
    rw [hold, hnew, backed_cons, backed_cons]
    exact id
  drift := fun k => by
    rw [St.drift, St.drift, hsh, hold, hnew, pointers_cons, pointers_cons]
    rfl
  sees := fun x b hx => by
    rw [hnew, sees_cons] at hx
    rw [hold, sees_cons]
    obtain ⟨⟨h1, h2⟩, hb⟩ | hx := hx
    · obtain hxs | hxs := lt_or_ge x start
      · exact .inl (.inl ⟨⟨h1, hend.symm ▸ hxs⟩, hb⟩)
      · exact .inr ⟨hxs, h2⟩
    · exact .inl (.inr hx)
  shared := fun w hw hws => by
    rw [hold, mem_cons] at hw
    rw [hnew, mem_cons]
    obtain rfl | hw := hw
    · rw [hshare] at hws
      cases hws
    · exact .inr hw

/-- The three ways in which `mm_brk` goes on. -/
lemma BrkGrew.growPost {r : Except Errno Unit} (hgrew : BrkGrew start stop s.mm s'.mm r) (hinv : MmInv A s.mm)
    (hsh : s'.kernel.shmems = s.kernel.shmems) : GrowPost A start stop s s' := by
  cases hgrew with
  | failed e hlist hvmas =>
    have hregions : s'.mm.regions = s.mm.regions := by rw [Mm.regions, Mm.regions, hlist, hvmas]
    refine ⟨fun hback => hregions ▸ hback, fun k => ?_, fun x b hx => ?_, fun w hw _ => ?_⟩
    · rw [St.drift, St.drift, hregions, hsh]
    · exact .inl (hregions ▸ hx)
    · exact hregions ▸ hw
  | grown a ha hend hflags hlist hvmas =>
    have hold : s.mm.mmapList.Perm (a :: s.mm.mmapList.erase a) := List.perm_cons_erase ha
    have hkeep : ∀ c ∈ s.mm.mmapList.erase a, s'.mm.vmas c = s.mm.vmas c := fun c hc => by
      rw [hvmas, update_of_ne fun hEq : c = a => List.Nodup.not_mem_erase hinv.nodup (hEq ▸ hc)]
    have hshare : (s.mm.vmas a).share = false := by
      rw [share, hflags]
      decide
    refine growPost_of_grow (v := (s.mm.vmas a).region) (regionsOf s.mm.vmas (s.mm.mmapList.erase a)) hsh ?_ ?_
      hend hshare
    · exact regionsOf_of_perm hold fun _ _ => rfl
    · rw [Mm.regions, hlist, regionsOf_of_perm hold hkeep, hvmas, update_self]
      rfl
  | added a hperm hnot hvmas =>
    have hkeep : ∀ c ∈ s.mm.mmapList, s'.mm.vmas c = s.mm.vmas c := fun c hc => by
      rw [hvmas, update_of_ne fun hEq : c = a => hnot (hEq ▸ hc)]
    have hregions : s'.mm.regions = ⟨0, start, stop, vmRead ||| vmWrite, none, 0⟩ ::ₘ s.mm.regions := by
      rw [Mm.regions, regionsOf_of_perm hperm hkeep, hvmas, update_self]
      rfl
    refine ⟨fun hback => ?_, fun k => ?_, fun x b hx => ?_, fun w hw _ => ?_⟩
    · rw [hregions, backed_cons]
      exact ⟨backed_private (by decide : share ⟨0, 0, 0, vmRead ||| vmWrite, none, 0⟩ = false) rfl, hback⟩
    · rw [St.drift, St.drift, hregions, pointers_cons, pointers_singleton_none rfl, zero_add, hsh]
    · rw [hregions, sees_cons] at hx
      exact hx.symm.imp_right And.left
    · rw [hregions]
      exact mem_cons_of_mem hw

end UcoreKernel.Vmm
