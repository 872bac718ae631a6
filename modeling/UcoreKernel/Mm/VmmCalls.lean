import UcoreKernel.Mm.RegionSet

/-!
What the calls of `vmm.c` do to the set of VMAs.

Each call keeps `MmInv` and fails no assertion of the file. For `mm_unmap` the result is
described as a whole: the areas of the address space are cut at the range, and `unmap_range` is
called for parts of the range only, which together have every address that was in an area.
-/

namespace UcoreKernel.Vmm

open UcoreKernel.Except (Ensures)
open Intervals LinkedList Function List Vma

variable {P : Type} {A : Layout} {ops : PageOps P} {K : Kmalloc} {mm mm' : Mm} {s s' : St P}
  {l l₁ l₂ : List ℕ} {a b vma addr len start stop x : ℕ} {v : Vma} {vmFlags f : BitVec 32} {back : Prop} {r : ℕ × ℕ}

/-! ### Rounding -/

lemma Layout.dvd_roundDown (A : Layout) (x : ℕ) : A.pgsize ∣ A.roundDown x :=
  Nat.dvd_sub_mod x

lemma Layout.dvd_rangeEnd (A : Layout) (addr len : ℕ) : A.pgsize ∣ A.rangeEnd addr len :=
  A.dvd_roundDown _

lemma Layout.roundDown_of_dvd (h : A.pgsize ∣ x) : A.roundDown x = x := by
  rw [Layout.roundDown, Nat.mod_eq_zero_of_dvd h, Nat.sub_zero]

/-- The end of a range of whole pages in user memory is not moved. -/
lemma Layout.rangeEnd_of_access (hstop : A.pgsize ∣ stop) (h : A.UserAccess start stop) :
    A.rangeEnd start (stop - start) = stop := by
  obtain ⟨-, hlt, htop⟩ := h
  have hle := A.userTop_le
  have hpos := A.pgsize_pos
  have hround : A.roundDown (stop + A.pgsize - 1) = stop := by
    obtain ⟨k, rfl⟩ := hstop
    have hmod : (A.pgsize * k + A.pgsize - 1) % A.pgsize = A.pgsize - 1 := by
      rw [show A.pgsize * k + A.pgsize - 1 = A.pgsize * k + (A.pgsize - 1) by omega,
        Nat.mul_add_mod, Nat.mod_eq_of_lt (by omega)]
    rw [Layout.roundDown, hmod]
    omega
  rw [Layout.rangeEnd, Layout.roundUp, show start + (stop - start) = stop by omega,
    Nat.mod_eq_of_lt (by omega : stop < 2 ^ A.wordBits),
    Nat.mod_eq_of_lt (by omega), hround]

/-! ### Assignments to a VMA -/

lemma Mm.setVma_same : (mm.setVma a v).vmas a = v := by simp [Mm.setVma]

lemma Mm.setVma_of_ne (hne : b ≠ a) : (mm.setVma a v).vmas b = mm.vmas b := by
  simp [Mm.setVma, hne]

/-- A VMA is changed so that the set stays spread. -/
lemma MmInv.setVma (h : MmInv A mm) (hspread : SpreadVmas (update mm.vmas a v) mm.mmapList)
    (hv : a ∈ mm.mmapList → v.InUser A ∧ v.vmMm = mm.self) : MmInv A (mm.setVma a v) where
  spread := hspread
  inUser := fun b (hb : b ∈ mm.mmapList) => by
    show (update mm.vmas a v b).InUser A
    by_cases hba : b = a
    · grind
    · rw [update_of_ne hba]
      exact h.inUser b hb
  owner := fun b (hb : b ∈ mm.mmapList) => by
    show (update mm.vmas a v b).vmMm = mm.self
    by_cases hba : b = a
    · grind
    · rw [update_of_ne hba]
      exact h.owner b hb
  __ := h

/-- A VMA outside the set is changed. -/
lemma MmInv.setVma_of_notMem (h : MmInv A mm) (ha : a ∉ mm.mmapList) : MmInv A (mm.setVma a v) := by
  refine h.setVma (h.spread.congr fun b _ => ?_) fun hm => absurd hm ha
  grind

/-- A VMA becomes smaller, or keeps its range. -/
lemma MmInv.setVma_shrink (h : MmInv A mm) (huser : v.InUser A) (howner : v.vmMm = (mm.vmas a).vmMm)
    (hstart : (mm.vmas a).vmStart ≤ v.vmStart) (hend : v.vmEnd ≤ (mm.vmas a).vmEnd) :
    MmInv A (mm.setVma a v) := by
  refine h.setVma (h.spread.shrink fun b hb => ?_) fun ha => ⟨huser, howner.trans (h.owner a ha)⟩
  obtain rfl | hba := eq_or_ne b a
  · simp only [update_self]
    exact ⟨hstart, huser.access.2.1, hend⟩
  · rw [update_of_ne hba]
    exact ⟨le_rfl, h.spread.lt b hb, le_rfl⟩

/-- `vma_create`. -/
lemma vmaCreate_some (hinv : MmInv A s.mm) (h : vmaCreate K s start stop vmFlags = (some a, s')) :
    MmInv A s'.mm ∧ Spare s'.mm a ∧ Extends s s' ∧ s'.mm.mmapList = s.mm.mmapList ∧
      ∃ o, s'.mm.vmas = update s.mm.vmas a ⟨o, start, stop, vmFlags, none, 0⟩ := by
  rw [vmaCreate] at h
  rcases hk : kmalloc K s with ⟨_ | c, s1⟩
  · simp [hk] at h
  simp only [hk, Prod.mk.injEq, Option.some.injEq] at h
  obtain ⟨rfl, rfl⟩ := h
  obtain ⟨hfresh, hmm, hsh, hp⟩ := kmalloc_some hk
  obtain ⟨kernel, mm⟩ := s1
  subst hmm
  have hnot : c ∉ s.mm.mmapList := fun hm => hfresh (hinv.block c hm)
  have hinv1 : MmInv A { s.mm with blocks := insert c s.mm.blocks } :=
    hinv.weaken (Finset.subset_insert c s.mm.blocks) hinv.cache
  refine ⟨hinv1.setVma_of_notMem hnot, ⟨Finset.mem_insert_self c _, hnot, ?_⟩,
    ⟨rfl, rfl, rfl, hsh, hp, ?_⟩, rfl, (s.mm.vmas c).vmMm, rfl⟩
  · intro T hT
    have htree := hinv.tree T hT
    grind
  · intro b hb hnot
    exact ⟨Finset.mem_insert_of_mem hb.block, hnot, hb.ne⟩

lemma vmaCreate_none (h : vmaCreate K s start stop vmFlags = (none, s')) :
    s'.mm = s.mm ∧ s'.kernel.shmems = s.kernel.shmems ∧ s'.kernel.pages = s.kernel.pages := by
  rw [vmaCreate] at h
  rcases hk : kmalloc K s with ⟨_ | c, s1⟩
  · grind [kmalloc_none]
  · simp [hk] at h

/-- A new VMA over a free range: `vma_create` and `insert_vma_struct`. -/
lemma vmaCreate_insert (h : vmaCreate K s start stop vmFlags = (some a, s')) (hinv : MmInv A s.mm)
    (hstart : A.pgsize ∣ start) (hstop : A.pgsize ∣ stop) (haccess : A.UserAccess start stop)
    (hfree : s.mm.Free start stop) : ∃ s'', insertVmaStruct K s' a = .ok s'' ∧ MmInv A s''.mm ∧ Extends s s'' ∧
      s''.mm.mmapList.Perm (a :: s.mm.mmapList) ∧ a ∉ s.mm.mmapList ∧
      s''.mm.vmas = update s.mm.vmas a ⟨s.mm.self, start, stop, vmFlags, none, 0⟩ := by
  obtain ⟨hinv', hspare, hext, hlist, o, hvmas⟩ := vmaCreate_some hinv h
  have hnot : a ∉ s.mm.mmapList := hlist ▸ hspare.notMem
  have hva : s'.mm.vmas a = ⟨o, start, stop, vmFlags, none, 0⟩ := by
    rw [hvmas, update_self]
  obtain ⟨s'', hrun, hinv'', hext', hperm, hvmas'⟩ := insertVmaStruct_spec hinv' hspare
    (by rw [hva]; exact ⟨hstart, hstop, haccess⟩) (fun b hb => by
      rw [hlist] at hb
      have hba : b ≠ a := fun hEq => hnot (hEq ▸ hb)
      rw [hva, hvmas, update_of_ne hba]
      exact hfree b hb)
  refine ⟨s'', hrun, hinv'', hext.trans hext' fun b hb => ?_, hlist ▸ hperm, hnot, ?_⟩
  · exact hperm.mem_iff.mpr (.tail a hb)
  · rw [hvmas', hva, hvmas, update_idem, hext.self]

/-! ### `mm_map` and `mm_map_shmem` -/

/-- The answer of `find_vma` decides whether a range is free. -/
lemma MmInv.free_of_firstAbove (h : MmInv A mm)
    (hfirst : ∀ a, firstAbove mm.vmas start mm.mmapList = some a → stop ≤ (mm.vmas a).vmStart) :
    mm.Free start stop := by
  cases hf : firstAbove mm.vmas start mm.mmapList with
  | none => exact fun b hb => .inl (firstAbove_eq_none.mp hf b hb)
  | some a =>
    obtain ⟨-, l₁, l₂, hl, hbefore⟩ := firstAbove_eq_some hf
    have hspread := h.spread
    rw [hl] at hspread
    rw [Mm.Free, hl]
    exact hspread.apart_of_first hbefore (hfirst a hf)

/-- `mm_map`: an error changes nothing but the cache; otherwise the range was free and is a VMA
of the set now. -/
lemma mmMap_spec (hinv : MmInv A s.mm) (addr len : ℕ) (vmFlags : BitVec 32) :
    ∃ r s', mmMap A K s addr len vmFlags = .ok (r, s') ∧ MmInv A s'.mm ∧
      s'.mm.self = s.mm.self ∧ s'.mm.pgdir = s.mm.pgdir ∧
      s'.kernel.shmems = s.kernel.shmems ∧ s'.kernel.pages = s.kernel.pages ∧
      (∀ e, r = .error e → s'.mm.mmapList = s.mm.mmapList ∧ s'.mm.vmas = s.mm.vmas) ∧
      ∀ a, r = .ok a → A.UserAccess (A.roundDown addr) (A.rangeEnd addr len) ∧
        (s.mm.Free (A.roundDown addr) (A.rangeEnd addr len)) ∧
        s'.mm.mmapList.Perm (a :: s.mm.mmapList) ∧ a ∉ s.mm.mmapList ∧ s'.mm.vmas = update s.mm.vmas a
          ⟨s.mm.self, A.roundDown addr, A.rangeEnd addr len, vmFlags &&& ~~~vmShare, none, 0⟩ := by
  have hdown := A.dvd_roundDown addr
  have hup := A.dvd_rangeEnd addr len
  rw [mmMap]
  generalize A.roundDown addr = start at *
  generalize A.rangeEnd addr len = stop at *
  by_cases haccess : A.UserAccess start stop
  swap
  · refine ⟨.error .inval, s, if_pos haccess, hinv, rfl, rfl, rfl, rfl, fun _ _ => ⟨rfl, rfl⟩, ?_⟩
    exact nofun
  obtain ⟨cache, hfind, hinv1⟩ := findVma_spec hinv start
  simp only [hfind, ok_bind]
  split_ifs with hmeet
  · refine ⟨.error .inval, _, rfl, hinv1, rfl, rfl, rfl, rfl, fun _ _ => ⟨rfl, rfl⟩, ?_⟩
    exact nofun
  have hfree : s.mm.Free start stop := by
    refine hinv.free_of_firstAbove fun a ha => ?_
    rw [ha] at hmeet
    simpa using hmeet
  rcases hnew : vmaCreate K { s with mm := { s.mm with mmapCache := cache } } start stop
      (vmFlags &&& ~~~vmShare) with ⟨_ | a, s1⟩
  · obtain ⟨hmm, hsh, hp⟩ := vmaCreate_none hnew
    refine ⟨.error .noMem, s1, rfl, hmm ▸ hinv1, by rw [hmm], by rw [hmm], hsh, hp, ?_, ?_⟩
    · exact fun _ _ => ⟨by rw [hmm], by rw [hmm]⟩
    · exact nofun
  · obtain ⟨s', hins, hinv', hext, hperm, hnot, hvmas⟩ :=
      vmaCreate_insert hnew hinv1 hdown hup haccess hfree
    refine ⟨.ok a, s', by simp only [hins, ok_bind, pure_eq_ok], hinv', hext.self, hext.pgdir,
      hext.shmems, hext.pages, nofun, ?_⟩
    grind

/-- `mm_map_shmem`: a shared region more, and a reference to its object. -/
lemma mmMapShmem_spec (hinv : MmInv A s.mm) (addr : ℕ) (vmFlags : BitVec 32) (shmem : Option ℕ) :
    ∃ r s', mmMapShmem A K s addr vmFlags shmem = .ok (r, s') ∧ MmInv A s'.mm ∧
      ((∃ e, r = .error e) ∧ s'.mm.regions = s.mm.regions ∧ s'.kernel.shmems = s.kernel.shmems ∨
        ∃ k start stop, shmem = some k ∧ (∃ a, r = .ok a) ∧ (∀ v ∈ s.mm.regions, v.ApartFrom start stop) ∧
          s'.mm.regions = ⟨0, start, stop, vmFlags &&& ~~~vmShare ||| vmShare, some k, 0⟩ ::ₘ s.mm.regions ∧
          s'.kernel.shmems = (shmemRefAdd s k 1).kernel.shmems) := by
  cases shmem with
  | none => exact ⟨_, s, rfl, hinv, .inl ⟨⟨_, rfl⟩, rfl, rfl⟩⟩
  | some k =>
    rw [mmMapShmem]
    split_ifs with haligned
    · exact ⟨_, s, rfl, hinv, .inl ⟨⟨_, rfl⟩, rfl, rfl⟩⟩
    obtain ⟨r, s', hrun, hinv', -, -, hsh, -, herr, hok⟩ := mmMap_spec (K := K)
      (s := shmemRefAdd s k 1) hinv addr ((shmemRefAdd s k 1).kernel.shmems k).len vmFlags
    simp only [hrun, ok_bind]
    cases r with
    | error e =>
      refine ⟨_, _, rfl, hinv', .inl ⟨⟨_, rfl⟩, ?_, ?_⟩⟩
      · show regionsOf s'.mm.vmas s'.mm.mmapList = _
        rw [(herr e rfl).1, (herr e rfl).2]
        rfl
      · -- the reference that was taken is given back
        simp only [shmemRefAdd, hsh, update_self, update_idem]
        simp
    | ok a =>
      obtain ⟨-, hfree, hperm, hnot, hvmas⟩ := hok a rfl
      have huser := hinv'.inUser a (hperm.mem_iff.mpr (.head _))
      refine ⟨_, _, rfl, hinv'.setVma_shrink { huser with } rfl le_rfl le_rfl,
        .inr ⟨k, A.roundDown addr, A.rangeEnd addr ((shmemRefAdd s k 1).kernel.shmems k).len, rfl, ⟨_, rfl⟩,
          apart_regionsOf hfree, ?_, hsh⟩⟩
      · have hkeep : ∀ w, ∀ c ∈ s.mm.mmapList,
            (s'.mm.setVma a w).vmas c = s.mm.vmas c := fun w c hc => by
          have hca : c ≠ a := fun hEq => hnot (hEq ▸ hc)
          rw [Mm.setVma_of_ne hca, hvmas, update_of_ne hca]
          rfl
        show regionsOf (s'.mm.setVma a _).vmas s'.mm.mmapList = _
        rw [regionsOf_of_perm hperm (hkeep _), Mm.setVma_same, hvmas, update_self]
        rfl

/-! ### Areas -/

/-- The address `x` is in the VMA, which has the flags `f`. -/
def Vma.Has (v : Vma) (x : ℕ) (f : BitVec 32) : Prop := v.vmStart ≤ x ∧ x < v.vmEnd ∧ v.vmFlags = f

/-- The address `x` is in a VMA of the list with the flags `f`. -/
def AreaIn (vmas : ℕ → Vma) (l : List ℕ) (x : ℕ) (f : BitVec 32) : Prop :=
  ∃ a ∈ l, (vmas a).Has x f

/-- The address `x` is in a VMA of the address space with the flags `f`. -/
def Mm.Area (mm : Mm) (x : ℕ) (f : BitVec 32) : Prop := AreaIn mm.vmas mm.mmapList x f

section Areas

variable {vmas : ℕ → Vma}

lemma areaIn_cons : AreaIn vmas (a :: l) x f ↔ (vmas a).Has x f ∨ AreaIn vmas l x f := by
  simp [AreaIn]

lemma areaIn_append : AreaIn vmas (l₁ ++ l₂) x f ↔ AreaIn vmas l₁ x f ∨ AreaIn vmas l₂ x f := by
  simp [AreaIn, or_and_right, exists_or]

lemma AreaIn.perm (h : l₁.Perm l₂) : AreaIn vmas l₁ x f ↔ AreaIn vmas l₂ x f := by
  simp only [AreaIn, h.mem_iff]

lemma areaIn_congr {vmas' : ℕ → Vma} (h : ∀ b ∈ l, vmas' b = vmas b) :
    AreaIn vmas' l x f ↔ AreaIn vmas l x f := by
  refine exists_congr fun b => and_congr_right fun hb => ?_
  rw [h b hb]

/-- The areas are those of the regions. -/
lemma areaIn_iff : AreaIn vmas l x f ↔ ∃ v ∈ regionsOf vmas l, v.Has x f := by
  simp only [AreaIn, mem_regionsOf, exists_exists_and_eq_and]
  rfl

/-- The pieces of a region have its addresses outside the range. -/
lemma Vma.has_cut (hone : ¬(v.vmStart < start ∧ stop < v.vmEnd)) :
    (∃ w ∈ v.cut A start stop, w.Has x f) ↔ v.Has x f ∧ ¬(start ≤ x ∧ x < stop) := by
  rw [cut]
  split_ifs with hapart hbelow habove <;> rw [Vma.ApartFrom] at hapart <;>
    simp only [Multiset.mem_singleton, Multiset.notMem_zero, exists_eq_left, Vma.Has, resized] <;> grind

end Areas

/-! ### `mm_unmap` -/

/-- The errors that are not failed assertions of the file. -/
def Stop.Foreign (e : Stop) : Prop := e ≠ .assertion

/-- `unmap_range` has been called for these ranges, one after the other. -/
def UnmapCalls (ops : PageOps P) (pgdir : ℕ) (p : P) (ranges : List (ℕ × ℕ)) (p' : P) : Prop :=
  ranges.foldlM (fun p r => ops.unmapRange p pgdir r.1 r.2) p = some p'

/-- A range of whole pages inside `[start, stop)`. -/
def SubRange (A : Layout) (start stop : ℕ) (r : ℕ × ℕ) : Prop :=
  A.pgsize ∣ r.1 ∧ A.pgsize ∣ r.2 ∧ start ≤ r.1 ∧ r.1 < r.2 ∧ r.2 ≤ stop

/-- The errors of a call into another file: `unmap_range` or `shmem_destroy` does not return. -/
def PagesFail (A : Layout) (ops : PageOps P) (e : Stop) : Prop :=
  e = .pages ∧
    ((∃ p pgdir start stop, A.pgsize ∣ start ∧ A.pgsize ∣ stop ∧ A.UserAccess start stop ∧
        ops.unmapRange p pgdir start stop = none) ∨
      ∃ p shmem, ops.shmemDestroy p shmem = none)

/-- The errors of a call that takes VMAs away; if they are backed, it is a call into another file. -/
def UnmapFails (A : Layout) (ops : PageOps P) (back : Prop) (e : Stop) : Prop :=
  e.Foreign ∧ (back → PagesFail A ops e)

lemma PagesFail.unmapFails {e : Stop} (h : PagesFail A ops e) : UnmapFails A ops back e :=
  ⟨fun hEq => (nomatch h.1.symm.trans hEq), fun _ => h⟩

lemma unmapRange_ensures (ops : PageOps P) (s : St P) (hr : SubRange A start stop r)
    (haccess : A.UserAccess start stop) : Ensures (PagesFail A ops) (unmapRange A ops s r.1 r.2) fun s' =>
      s'.mm = s.mm ∧ s'.kernel.shmems = s.kernel.shmems ∧
      UnmapCalls ops s.mm.pgdir s.kernel.pages [r] s'.kernel.pages := by
  obtain ⟨hd1, hd2, h1, h2, h3⟩ := hr
  have hacc : A.UserAccess r.1 r.2 := ⟨haccess.1.trans h1, h2, h3.trans haccess.2.2⟩
  simp only [unmapRange, assert, Nat.mod_eq_zero_of_dvd hd1, Nat.mod_eq_zero_of_dvd hd2, and_self,
    if_pos hacc, if_true, ok_bind]
  cases hrun : ops.unmapRange s.kernel.pages s.mm.pgdir r.1 r.2 with
  | none => exact ⟨rfl, .inl ⟨_, _, r.1, r.2, hd1, hd2, hacc, hrun⟩⟩
  | some p => exact ⟨rfl, rfl, by simp [UnmapCalls, hrun]⟩

lemma vmaResize_eq (hstart : A.pgsize ∣ start) (hstop : A.pgsize ∣ stop)
    (h₁ : (mm.vmas a).vmStart ≤ start) (h₂ : start < stop) (h₃ : stop ≤ (mm.vmas a).vmEnd) :
    vmaResize A mm a start stop = .ok (mm.setVma a ((mm.vmas a).resized A start stop)) := by
  simp only [vmaResize, assert, Nat.mod_eq_zero_of_dvd hstart, Nat.mod_eq_zero_of_dvd hstop,
    and_self, if_true, ok_bind, if_pos (And.intro h₁ (And.intro h₂ h₃))]
  rfl

/-- `vma_destroy` gives back the reference of the VMA; one that is not shared leaves the rest of the
kernel alone. -/
lemma vmaDestroy_ensures (ops : PageOps P) (s : St P) (a : ℕ) :
    Ensures (UnmapFails A ops (s.mm.vmas a).Backed) (vmaDestroy ops s a) fun s' =>
      s'.mm = { s.mm with blocks := s.mm.blocks.erase a } ∧
      ((s.mm.vmas a).share = false → s'.kernel = s.kernel) ∧
      ((s.mm.vmas a).Backed → ∀ k, (s'.kernel.shmems k).shmemRef =
        (s.kernel.shmems k).shmemRef - pointers {(s.mm.vmas a).region} k) := by
  have hshmem : Ensures (UnmapFails A ops (s.mm.vmas a).Backed) (vmaDestroyShmem ops s (s.mm.vmas a))
      fun s' => s'.mm = s.mm ∧ ((s.mm.vmas a).share = false → s'.kernel = s.kernel) ∧
        ((s.mm.vmas a).Backed → ∀ k, (s'.kernel.shmems k).shmemRef =
          (s.kernel.shmems k).shmemRef - pointers {(s.mm.vmas a).region} k) := by
    rw [vmaDestroyShmem]
    cases hshare : (s.mm.vmas a).share with
    | false =>
      refine ⟨rfl, fun _ => rfl, fun hback k => ?_⟩
      have hnone : (s.mm.vmas a).region.shmem = none := hback.shmem_eq_none hshare
      rw [pointers_singleton_none hnone]
      simp
    | true =>
      rw [if_pos rfl]
      cases hsh : (s.mm.vmas a).shmem with
      | none => exact ⟨by rintro ⟨⟩, fun hback => absurd hsh (hback.mp hshare)⟩
      | some j =>
        have hrefs : ∀ k, ((shmemRefAdd s j (-1)).kernel.shmems k).shmemRef =
            (s.kernel.shmems k).shmemRef - pointers {(s.mm.vmas a).region} k := by
          intro k
          have hregion : (s.mm.vmas a).region.shmem = some j := hsh
          obtain rfl | hkj := eq_or_ne k j
          · simp [shmemRefAdd, pointers, ← Multiset.cons_zero, hregion]
            ring
          · simp [shmemRefAdd, update_of_ne hkj, pointers, ← Multiset.cons_zero, hregion, Ne.symm hkj]
        dsimp only
        split_ifs
        · rw [shmemDestroy]
          cases hrun : ops.shmemDestroy (shmemRefAdd s j (-1)).kernel.pages j with
          | none => exact PagesFail.unmapFails ⟨rfl, .inr ⟨_, j, hrun⟩⟩
          | some p => exact ⟨rfl, by simp, fun _ => hrefs⟩
        · exact ⟨rfl, by simp, fun _ => hrefs⟩
  rw [vmaDestroy]
  refine hshmem.bind fun s' h' => ?_
  obtain ⟨hmm, hkernel, hrefs⟩ := h'
  exact ⟨by rw [kfree, hmm], hkernel, hrefs⟩

/-- The state of the second loop of `mm_unmap`: the VMAs of `freeList` meet the range, and the
VMAs of the set meet neither the range nor them. -/
structure Pending (A : Layout) (mm : Mm) (start stop : ℕ) (freeList : List ℕ) : Prop where
  nodup : freeList.Nodup
  spare : ∀ a ∈ freeList, Spare mm a
  inUser : ∀ a ∈ freeList, (mm.vmas a).InUser A
  meets : ∀ a ∈ freeList, (mm.vmas a).vmStart < stop ∧ start < (mm.vmas a).vmEnd
  oneSide : ∀ a ∈ freeList, ¬((mm.vmas a).vmStart < start ∧ stop < (mm.vmas a).vmEnd)
  apart : freeList.Pairwise fun a b =>
    (mm.vmas a).ApartFrom (mm.vmas b).vmStart (mm.vmas b).vmEnd
  apartSet : ∀ a ∈ freeList, ∀ b ∈ mm.mmapList, (mm.vmas b).ApartFrom (mm.vmas a).vmStart (mm.vmas a).vmEnd
  outside : ∀ b ∈ mm.mmapList, (mm.vmas b).ApartFrom start stop

/-- What the body of the second loop does with `vma`. -/
structure ReleasePost (A : Layout) (ops : PageOps P) (start stop : ℕ) (s : St P) (vma : ℕ)
    (freeList : List ℕ) (s' : St P) : Prop where
  inv : MmInv A s'.mm
  pending : Pending A s'.mm start stop freeList
  self : s'.mm.self = s.mm.self
  pgdir : s'.mm.pgdir = s.mm.pgdir
  vmas : ∀ b ∈ freeList, s'.mm.vmas b = s.mm.vmas b
  area : ∀ x f, s'.mm.Area x f ↔
    s.mm.Area x f ∨ (s.mm.vmas vma).Has x f ∧ ¬(start ≤ x ∧ x < stop)
  pages : (s.mm.vmas vma).share = false → s'.kernel.shmems = s.kernel.shmems ∧
    ∃ r, SubRange A start stop r ∧ UnmapCalls ops s.mm.pgdir s.kernel.pages [r] s'.kernel.pages ∧
      ∀ x f, (s.mm.vmas vma).Has x f → start ≤ x → x < stop → r.1 ≤ x ∧ x < r.2

/-- The regions `Q` have been cut at the range and added, and the references to their objects with
them. -/
structure Recut (A : Layout) (start stop : ℕ) (Q : Multiset Vma) (s s' : St P) : Prop where
  regions : s'.mm.regions = Q.bind (Vma.cut A start stop) + s.mm.regions
  drift : Backed Q → ∀ k, s'.drift k = s.drift k - pointers Q k

lemma Recut.area_singleton (h : Recut A start stop {v.region} s s')
    (hone : ¬(v.vmStart < start ∧ stop < v.vmEnd)) :
    s'.mm.Area x f ↔ s.mm.Area x f ∨ v.Has x f ∧ ¬(start ≤ x ∧ x < stop) := by
  have hcut : (∃ w ∈ v.region.cut A start stop, w.Has x f) ↔ _ := has_cut hone
  rw [Mm.Area, Mm.Area, areaIn_iff, areaIn_iff, ← Mm.regions, ← Mm.regions, h.regions, Multiset.singleton_bind]
  simp only [Multiset.mem_add, or_and_right, exists_or, hcut]
  exact or_comm

variable {freeList : List ℕ} {st en : ℕ}

section

variable (hinv : MmInv A s.mm) (hp : Pending A s.mm start stop (vma :: freeList)) (hst : A.pgsize ∣ st)
include hinv hp hst

variable (hen : A.pgsize ∣ en) (h₁ : (s.mm.vmas vma).vmStart ≤ st) (h₂ : st < en)
  (h₃ : en ≤ (s.mm.vmas vma).vmEnd)
include hen h₁ h₂ h₃

/-- `vma_resize` and `insert_vma_struct` of a pending VMA. -/
lemma Pending.insert : ∃ mm s', vmaResize A s.mm vma st en = .ok mm ∧
      insertVmaStruct K { s with mm := mm } vma = .ok s' ∧ MmInv A s'.mm ∧ Extends s s' ∧
      s'.mm.mmapList.Perm (vma :: s.mm.mmapList) ∧
      s'.mm.vmas = update s.mm.vmas vma
        { (s.mm.vmas vma).resized A st en with vmMm := s.mm.self } := by
  have hspare := hp.spare vma (.head _)
  have huser := hp.inUser vma (.head _)
  have hresize : vmaResize A s.mm vma st en = .ok _ := vmaResize_eq hst hen h₁ h₂ h₃
  have hself : (s.mm.setVma vma ((s.mm.vmas vma).resized A st en)).vmas vma =
      (s.mm.vmas vma).resized A st en := Mm.setVma_same
  obtain ⟨s', hins, hinv', hext, hperm, hvmas⟩ := insertVmaStruct_spec
    (s := { s with mm := s.mm.setVma vma ((s.mm.vmas vma).resized A st en) })
    (hinv.setVma_of_notMem hspare.notMem) { hspare with }
    (by
      rw [hself]
      exact ⟨hst, hen, huser.access.1.trans h₁, h₂, h₃.trans huser.access.2.2⟩)
    (fun b hb => by
      have hne : b ≠ vma := fun hEq => hspare.notMem (hEq ▸ hb)
      rw [hself, Mm.setVma_of_ne hne]
      exact (hp.apartSet vma (.head _) b hb).imp (·.trans h₁) fun h => h₃.trans h)
  refine ⟨_, s', hresize, hins, hinv', ⟨hext.self, hext.pgdir, hext.cache, hext.shmems, hext.pages,
    fun b hb hnot => hext.spare b { hb with } hnot⟩, hperm, ?_⟩
  rw [hvmas, hself]
  exact update_idem _ _ _

/-- A VMA goes back into the set with the part of its range that lies outside. -/
lemma putBack_spec (hout : en ≤ start ∨ stop ≤ st) : ∃ mm s', vmaResize A s.mm vma st en = .ok mm ∧
      insertVmaStruct K { s with mm := mm } vma = .ok s' ∧ MmInv A s'.mm ∧
      Pending A s'.mm start stop freeList ∧ s'.mm.self = s.mm.self ∧ s'.mm.pgdir = s.mm.pgdir ∧
      s'.kernel.shmems = s.kernel.shmems ∧ s'.kernel.pages = s.kernel.pages ∧
      (∀ b ∈ freeList, s'.mm.vmas b = s.mm.vmas b) ∧
      s'.mm.regions = (s.mm.vmas vma).region.resized A st en ::ₘ s.mm.regions := by
  have hspare := hp.spare vma (.head _)
  obtain ⟨mm, s', hresize, hins, hinv', hext, hperm, hvmas⟩ :=
    hp.insert hinv hst hen h₁ h₂ h₃
  have hmem : ∀ b ∈ s.mm.mmapList, b ≠ vma := fun b hb hEq => hspare.notMem (hEq ▸ hb)
  have hfree : ∀ b ∈ freeList, b ≠ vma := fun b hb hEq =>
    hp.nodup.notMem (hEq ▸ hb)
  have hvma' : s'.mm.vmas vma = { (s.mm.vmas vma).resized A st en with vmMm := s.mm.self } := by
    rw [hvmas, update_self]
  have hother' : ∀ b, b ≠ vma → s'.mm.vmas b = s.mm.vmas b := fun b hb => by
    rw [hvmas, update_of_ne hb]
  have hmem' : ∀ {b}, b ∈ s'.mm.mmapList → b = vma ∨ (b ≠ vma ∧ b ∈ s.mm.mmapList) := by grind
  refine ⟨mm, s', hresize, hins, hinv', ?_, hext.self, hext.pgdir, hext.shmems,
    hext.pages, fun b hb => hother' b (hfree b hb), ?_⟩
  · have hcons : ∀ b ∈ freeList, b ∈ vma :: freeList := fun b hb => .tail vma hb
    constructor
    case nodup => exact hp.nodup.of_cons
    case spare =>
      intro b hb
      have hsb := hp.spare b (hcons b hb)
      refine hext.spare b { hsb with } fun hm => ?_
      exact (hmem' hm).elim (hfree b hb) fun hm => hsb.notMem hm.2
    case inUser =>
      intro b hb
      rw [hother' b (hfree b hb)]
      exact hp.inUser b (hcons b hb)
    case meets =>
      intro b hb
      rw [hother' b (hfree b hb)]
      exact hp.meets b (hcons b hb)
    case oneSide =>
      intro b hb
      rw [hother' b (hfree b hb)]
      exact hp.oneSide b (hcons b hb)
    case apart =>
      refine (pairwise_cons.mp hp.apart).2.imp_of_mem fun hb _ _ => ?_
      grind
    case apartSet =>
      intro a ha b hb
      rw [hother' a (hfree a ha)]
      obtain rfl | ⟨hne, hb⟩ := hmem' hb
      · rw [hvma']
        exact ((pairwise_cons.mp hp.apart).1 a ha).imp (h₃.trans ·) fun h => h.trans h₁
      · rw [hother' b hne]
        exact hp.apartSet a (hcons a ha) b hb
    case outside =>
      intro b hb
      obtain rfl | ⟨hne, hb⟩ := hmem' hb
      · rw [hvma']
        exact hout
      · rw [hother' b hne]
        exact hp.outside b hb
  · rw [Mm.regions, regionsOf_of_perm hperm fun b hb => hother' b (hmem b hb), hvma']
    rfl

/-- A VMA goes back into the set, and the rest of its range is unmapped. -/
lemma Pending.release (hout : en ≤ start ∨ stop ≤ st)
    (hcut : (s.mm.vmas vma).region.cut A start stop = {(s.mm.vmas vma).region.resized A st en})
    (hr : SubRange A start stop r) (haccess : A.UserAccess start stop)
    (hcover : ∀ x f, (s.mm.vmas vma).Has x f → start ≤ x → x < stop → r.1 ≤ x ∧ x < r.2) :
    Ensures (PagesFail A ops) (do
      let mm ← vmaResize A s.mm vma st en
      let s ← insertVmaStruct K { s with mm := mm } vma
      unmapRange A ops s r.1 r.2) fun s' => ReleasePost A ops start stop s vma freeList s' ∧
        Recut A start stop {(s.mm.vmas vma).region} s s' := by
  obtain ⟨mm, s1, hresize, hins, hinv1, hp1, hself, hpgdir, hsh, hpg, hvmas, hregions⟩ :=
    putBack_spec (K := K) hinv hp hst hen h₁ h₂ h₃ hout
  simp only [hresize, hins, ok_bind]
  refine (unmapRange_ensures ops s1 hr haccess).mono fun s' ⟨hmm', hsh', hcalls⟩ => ?_
  rw [hpgdir, hpg] at hcalls
  have hrecut : Recut A start stop {(s.mm.vmas vma).region} s s' := by
    refine ⟨by rw [hmm', hregions, Multiset.singleton_bind, hcut, Multiset.singleton_add], fun _ k => ?_⟩
    have hpieces : pointers {(s.mm.vmas vma).region.resized A st en} k =
        pointers {(s.mm.vmas vma).region} k := pointers_singleton_congr rfl
    rw [St.drift, St.drift, hsh', hsh, hmm', hregions, pointers_cons, hpieces]
    omega
  exact ⟨⟨hmm' ▸ hinv1, hmm' ▸ hp1, by rw [hmm', hself], by rw [hmm', hpgdir],
    fun b hb => by rw [hmm', hvmas b hb], fun x f => hrecut.area_singleton (hp.oneSide vma (.head _)),
    fun _ => ⟨hsh'.trans hsh, r, hr, hcalls, hcover⟩⟩, hrecut⟩

end

/-- A VMA inside the range is destroyed; the others are still pending. -/
lemma Pending.destroy (hp : Pending A s.mm start stop (vma :: freeList))
    (hmm : s'.mm = { s.mm with blocks := s.mm.blocks.erase vma }) :
    Pending A s'.mm start stop freeList := by
  have hfree : ∀ b ∈ freeList, b ≠ vma := fun b hb hEq =>
    hp.nodup.notMem (hEq ▸ hb)
  have hcons : ∀ b ∈ freeList, b ∈ vma :: freeList := fun b hb => .tail vma hb
  rw [hmm]
  exact
    { nodup := hp.nodup.of_cons
      spare := fun b hb => by
        have hsb := hp.spare b (hcons b hb)
        exact ⟨Finset.mem_erase.mpr ⟨hfree b hb, hsb.block⟩, hsb.notMem, hsb.ne⟩
      inUser := fun b hb => hp.inUser b (hcons b hb)
      meets := fun b hb => hp.meets b (hcons b hb)
      oneSide := fun b hb => hp.oneSide b (hcons b hb)
      apart := hp.apart.of_cons
      apartSet := fun b hb => hp.apartSet b (hcons b hb)
      outside := hp.outside }

/-- A block that is not in the set is freed. -/
lemma MmInv.erase_block (h : MmInv A mm) (ha : Spare mm a) :
    MmInv A { mm with blocks := mm.blocks.erase a } where
  __ := h
  block := fun b hb =>
    Finset.mem_erase.mpr ⟨fun hEq => ha.notMem (hEq ▸ hb), h.block b hb⟩
  tree := fun T hT => ⟨(h.tree T hT).1, Finset.mem_erase.mpr ⟨(ha.ne T hT).1.symm, (h.tree T hT).2.1⟩,
    Finset.mem_erase.mpr ⟨(ha.ne T hT).2.symm, (h.tree T hT).2.2⟩⟩

/-- The body of the second loop of `mm_unmap` cuts the region of `vma`. -/
lemma mmUnmapRelease_ensures (hinv : MmInv A s.mm)
    (hp : Pending A s.mm start stop (vma :: freeList)) (hstart : A.pgsize ∣ start)
    (hstop : A.pgsize ∣ stop) (haccess : A.UserAccess start stop) :
    Ensures (UnmapFails A ops (s.mm.vmas vma).Backed) (mmUnmapRelease A ops K s vma start stop)
      fun s' => ReleasePost A ops start stop s vma freeList s' ∧
        Recut A start stop {(s.mm.vmas vma).region} s s' := by
  have hspare := hp.spare vma (.head _)
  have huser := hp.inUser vma (.head _)
  obtain ⟨hlo, hhi⟩ := hp.meets vma (.head _)
  have hone := hp.oneSide vma (.head _)
  have hvlt : (s.mm.vmas vma).vmStart < (s.mm.vmas vma).vmEnd := huser.access.2.1
  have hmeets : ¬(s.mm.vmas vma).region.ApartFrom start stop :=
    not_or.mpr ⟨not_le.mpr hhi, not_le.mpr hlo⟩
  rw [mmUnmapRelease]
  by_cases hbelow : (s.mm.vmas vma).vmStart < start
  · -- the part below the range stays
    have hend : (s.mm.vmas vma).vmEnd ≤ stop := not_lt.mp fun h => hone ⟨hbelow, h⟩
    have hr : SubRange A start stop (start, (s.mm.vmas vma).vmEnd) :=
      ⟨hstart, huser.dvdEnd, le_rfl, hhi, hend⟩
    rw [if_pos hbelow]
    exact (hp.release hinv huser.dvdStart hstart le_rfl hbelow hhi.le (.inl le_rfl)
      (cut_below hmeets hbelow) hr haccess fun x f hx hx1 _ => ⟨hx1, hx.2.1⟩).tolerate
      fun _ => PagesFail.unmapFails
  rw [if_neg hbelow]
  by_cases habove : stop < (s.mm.vmas vma).vmEnd
  · -- the part above the range stays
    have hr : SubRange A start stop ((s.mm.vmas vma).vmStart, stop) :=
      ⟨huser.dvdStart, hstop, not_lt.mp hbelow, hlo, le_rfl⟩
    rw [if_pos habove]
    exact (hp.release hinv hstop huser.dvdEnd hlo.le habove le_rfl (.inr le_rfl)
      (cut_above hmeets hbelow habove) hr haccess fun x f hx _ hx2 => ⟨hx.1, hx2⟩).tolerate
      fun _ => PagesFail.unmapFails
  · -- nothing stays
    rw [if_neg habove]
    refine (vmaDestroy_ensures ops s vma).bind fun s1 ⟨hmm1, hkernel, hrefs⟩ => ?_
    have hr : SubRange A start stop ((s.mm.vmas vma).vmStart, (s.mm.vmas vma).vmEnd) :=
      ⟨huser.dvdStart, huser.dvdEnd, not_lt.mp hbelow, hvlt, not_lt.mp habove⟩
    have hinv1 : MmInv A s1.mm := hmm1 ▸ hinv.erase_block hspare
    have hp1 : Pending A s1.mm start stop freeList := hp.destroy hmm1
    refine ((unmapRange_ensures ops s1 hr haccess).tolerate fun _ => PagesFail.unmapFails).mono
      fun s' ⟨hmm', hsh', hcalls⟩ => ?_
    have hregions : s'.mm.regions = s.mm.regions := by rw [hmm', hmm1]; rfl
    have hrecut : Recut A start stop {(s.mm.vmas vma).region} s s' := by
      refine ⟨?_, fun hback k => ?_⟩
      · rw [hregions, Multiset.singleton_bind, cut_inside hmeets hbelow habove, zero_add]
      · have hvma : (s.mm.vmas vma).region.Backed := hback _ (Multiset.mem_singleton_self _)
        rw [St.drift, St.drift, hregions, hsh', hrefs hvma k]
        omega
    refine ⟨⟨hmm' ▸ hinv1, hmm' ▸ hp1, by rw [hmm', hmm1], by rw [hmm', hmm1], fun b _ => by rw [hmm', hmm1],
      fun x f => hrecut.area_singleton hone, fun hprivate => ?_⟩, hrecut⟩
    rw [hmm1, hkernel hprivate] at hcalls
    exact ⟨by rw [hsh', hkernel hprivate], _, hr, hcalls, fun x f hx _ _ => ⟨hx.1, hx.2.1⟩⟩

/-- The areas `old` have been cut at the range; if `priv` holds, the rest of the kernel has
only seen calls of `unmap_range`. -/
structure CutPost (A : Layout) (ops : PageOps P) (start stop : ℕ)
    (old : ℕ → BitVec 32 → Prop) (priv : Prop) (s s' : St P) : Prop where
  inv : MmInv A s'.mm
  self : s'.mm.self = s.mm.self
  pgdir : s'.mm.pgdir = s.mm.pgdir
  area : ∀ x f, s'.mm.Area x f ↔ old x f ∧ ¬(start ≤ x ∧ x < stop)
  pages : priv → s'.kernel.shmems = s.kernel.shmems ∧
    ∃ ranges, UnmapCalls ops s.mm.pgdir s.kernel.pages ranges s'.kernel.pages ∧
      (∀ r ∈ ranges, SubRange A start stop r) ∧
      ∀ x f, old x f → start ≤ x → x < stop → ∃ r ∈ ranges, r.1 ≤ x ∧ x < r.2

lemma Vma.ApartFrom.not_has (h : v.ApartFrom start stop) (hx₁ : start ≤ x) (hx₂ : x < stop) : ¬v.Has x f := by
  rintro ⟨h1, h2, -⟩
  obtain h | h := h <;> omega

/-- An area outside the range. -/
lemma not_area_of_apart (h : mm.Free start stop) (hx₁ : start ≤ x) (hx₂ : x < stop) : ¬mm.Area x f := by
  rintro ⟨b, hb, hx⟩
  exact (h b hb).not_has hx₁ hx₂ hx

/-- A region that is split has its addresses outside the range. -/
lemma SplitAt.area {rest : Multiset Vma} (h : SplitAt A start stop v rest s s') :
    s'.mm.Area x f ↔ s.mm.Area x f ∧ ¬(start ≤ x ∧ x < stop) := by
  have hrest : ∀ w ∈ rest, w.Has x f → ¬(start ≤ x ∧ x < stop) := fun w hw hx hr =>
    (h.apart w hw).not_has hr.1 hr.2 hx
  rw [Mm.Area, Mm.Area, areaIn_iff, areaIn_iff, ← Mm.regions, ← Mm.regions, h.regions, h.old]
  simp only [Multiset.mem_cons, or_and_right, exists_or, exists_eq_left]
  have := h.below
  have := h.above
  have := h.range
  grind [Vma.Has, resized]

/-- The second loop of `mm_unmap` cuts the regions of `free_list`. -/
lemma mmUnmapLoop_ensures (hinv : MmInv A s.mm)
    (hp : Pending A s.mm start stop freeList) (hstart : A.pgsize ∣ start)
    (hstop : A.pgsize ∣ stop) (haccess : A.UserAccess start stop) :
    Ensures (UnmapFails A ops (Backed (regionsOf s.mm.vmas freeList)))
      (mmUnmapLoop A ops K start stop freeList s) fun s' =>
        CutPost A ops start stop (fun x f => s.mm.Area x f ∨ AreaIn s.mm.vmas freeList x f)
          (∀ a ∈ freeList, (s.mm.vmas a).share = false) s s' ∧
        Recut A start stop (regionsOf s.mm.vmas freeList) s s' := by
  induction freeList generalizing s with
  | nil =>
    refine ⟨⟨hinv, rfl, rfl, fun x f => ?_, fun _ => ⟨rfl, [], rfl, by simp, ?_⟩⟩,
      by simp [regionsOf], fun _ k => by simp [regionsOf, pointers]⟩
    · refine ⟨fun hx => ⟨.inl hx, fun hr => not_area_of_apart hp.outside hr.1 hr.2 hx⟩, ?_⟩
      rintro ⟨hx | ⟨b, hb, -⟩, -⟩
      · exact hx
      · cases hb
    · rintro x f (hx | ⟨b, hb, -⟩) hx1 hx2
      · exact absurd hx (not_area_of_apart hp.outside hx1 hx2)
      · cases hb
  | cons vma freeList ih =>
    rw [mmUnmapLoop]
    rw [regionsOf_cons]
    refine ((mmUnmapRelease_ensures hinv hp hstart hstop haccess).tolerate fun e he =>
      ⟨he.1, fun hback => he.2 (backed_cons.mp hback).1⟩).bind fun s1 h1 => ?_
    obtain ⟨hrel, hrecut⟩ := h1
    have hregions := regionsOf_congr hrel.vmas
    have hrest := ih hrel.inv hrel.pending
    rw [hregions] at hrest
    refine (hrest.tolerate fun e he => ⟨he.1, fun hback => he.2 (backed_cons.mp hback).2⟩).mono
      fun s' h' => ?_
    obtain ⟨hcut, hrecut'⟩ := h'
    refine ⟨?_, ?_, fun hback k => ?_⟩
    rotate_left
    · rw [hrecut'.regions, hrecut.regions, Multiset.cons_bind, Multiset.singleton_bind]
      abel
    · obtain ⟨hfirst, hrest⟩ := backed_cons.mp hback
      rw [hrecut'.drift hrest k, hrecut.drift (by simpa [Backed] using hfirst) k, pointers_cons]
      omega
    have hsame : ∀ x f, AreaIn s1.mm.vmas freeList x f ↔ AreaIn s.mm.vmas freeList x f :=
      fun x f => areaIn_congr hrel.vmas
    refine ⟨hcut.inv, hcut.self.trans hrel.self, hcut.pgdir.trans hrel.pgdir, fun x f => ?_, fun hpriv => ?_⟩
    · rw [hcut.area, hsame, hrel.area, areaIn_cons]
      tauto
    · obtain ⟨hsh1, r, hr, hcall, hcover⟩ := hrel.pages (hpriv vma (.head _))
      obtain ⟨hsh', ranges, hcalls, hsub, hcovers⟩ := hcut.pages fun a ha => by
        rw [hrel.vmas a ha]
        exact hpriv a (.tail vma ha)
      refine ⟨hsh'.trans hsh1, r :: ranges, ?_, ?_, ?_⟩
      · rw [hrel.pgdir] at hcalls
        simp only [UnmapCalls, foldlM_cons, foldlM_nil] at hcall hcalls ⊢
        cases hun : ops.unmapRange s.kernel.pages s.mm.pgdir r.1 r.2 with
        | none => simp [hun] at hcall
        | some p => grind
      · grind
      · intro x f hx hx1 hx2
        rw [areaIn_cons] at hx
        obtain hx | hx | hx := hx
        · exact absurd hx (not_area_of_apart hp.outside hx1 hx2)
        · grind
        · grind

variable {post : List ℕ}

section

variable (hinv : MmInv A mm) (hl : mm.mmapList = l ++ vma :: post)
include hinv hl

/-- One turn of the first loop of `mm_unmap`. -/
lemma mmUnmapCollect_turn (hbelow : (mm.vmas vma).vmStart < stop) (fuel : ℕ) (freeList : List ℕ) :
    ∃ mm', MmInv A mm' ∧ mm'.mmapList = l ++ post ∧ mm'.vmas = mm.vmas ∧ mm'.self = mm.self ∧
      mm'.pgdir = mm.pgdir ∧ Spare mm' vma ∧ (∀ b, Spare mm b → Spare mm' b) ∧
      mmUnmapCollect stop (fuel + 1) mm vma freeList = match post.head? with
        | none => .ok (vma :: freeList, mm')
        | some le => mmUnmapCollect stop fuel mm' le (vma :: freeList) := by
  have hnot : vma ∉ l := by
    have hnd := hinv.nodup
    grind
  obtain ⟨mm', hrem, hinv', hlist, hvmas, hself, hpgdir, hspare, hkeep⟩ :=
    removeVmaStruct_spec hinv (by rw [hl]; simp : vma ∈ mm.mmapList)
  rw [hl, erase_append_right _ hnot, erase_cons_head] at hlist
  refine ⟨mm', hinv', hlist, hvmas, hself, hpgdir, hspare, hkeep, ?_⟩
  rw [mmUnmapCollect, if_pos hbelow]
  simp only [hrem, ok_bind, hl, listNext_append hnot]
  cases post.head? <;> rfl

/-- The first loop of `mm_unmap` takes the VMAs out of the set up to the first one that begins
above the range. -/
lemma mmUnmapCollect_spec {fuel : ℕ} (hfuel : post.length < fuel) (stop : ℕ) (freeList : List ℕ) :
    ∃ hit rest mm', vma :: post = hit ++ rest ∧
      mmUnmapCollect stop fuel mm vma freeList = .ok (hit.reverse ++ freeList, mm') ∧
      MmInv A mm' ∧ mm'.mmapList = l ++ rest ∧ mm'.vmas = mm.vmas ∧ mm'.self = mm.self ∧
      mm'.pgdir = mm.pgdir ∧ (∀ a ∈ hit, (mm.vmas a).vmStart < stop) ∧
      (∀ a ∈ rest, stop ≤ (mm.vmas a).vmStart) ∧ (∀ a ∈ hit, Spare mm' a) ∧ ∀ b, Spare mm b → Spare mm' b := by
  induction fuel generalizing mm vma post freeList with
  | zero => omega
  | succ fuel ih =>
    by_cases hbelow : (mm.vmas vma).vmStart < stop
    · obtain ⟨mm₁, hinv₁, hlist₁, hvmas₁, hself₁, hpgdir₁, hspare₁, hkeep₁, hturn⟩ :=
        mmUnmapCollect_turn hinv hl hbelow fuel freeList
      cases post with
      | nil =>
        exact ⟨[vma], [], mm₁, rfl, hturn, hinv₁, hlist₁, hvmas₁, hself₁, hpgdir₁,
          fun a ha => mem_singleton.mp ha ▸ hbelow, by simp,
          fun a ha => mem_singleton.mp ha ▸ hspare₁, hkeep₁⟩
      | cons w post =>
        obtain ⟨hit, rest, mm', hsplit, hrun, hinv', hlist, hvmas, hself, hpgdir, hhit, hrest,
          hspare, hkeep⟩ := ih hinv₁ hlist₁ (by simpa using hfuel) (vma :: freeList)
        rw [hvmas₁] at hhit hrest
        refine ⟨vma :: hit, rest, mm', by rw [hsplit, cons_append], ?_, hinv', hlist,
          hvmas.trans hvmas₁, hself.trans hself₁, hpgdir.trans hpgdir₁, ?_, hrest, ?_,
          fun b hb => hkeep b (hkeep₁ b hb)⟩
        · grind
        · grind
        · grind
    · refine ⟨[], vma :: post, mm, rfl, by rw [mmUnmapCollect, if_neg hbelow]; rfl, hinv, hl,
        rfl, rfl, rfl, by simp, ?_, by simp, fun _ hb => hb⟩
      intro a ha
      obtain rfl | ha := mem_cons.mp ha
      · exact not_lt.mp hbelow
      · have hspread := hinv.spread
        rw [hl] at hspread
        calc stop ≤ (mm.vmas vma).vmStart := not_lt.mp hbelow
          _ ≤ (mm.vmas vma).vmEnd := (hspread.lt vma (by simp)).le
          _ ≤ (mm.vmas a).vmStart := hspread.middle.2 a ha

end

/-- After the first loop of `mm_unmap`, started at the first VMA that reaches beyond the start of
the range. -/
lemma pending_of_collect {hit rest : List ℕ} (hinv : MmInv A mm)
    (hl : mm.mmapList = l ++ (hit ++ rest)) (hlist : mm'.mmapList = l ++ rest)
    (hvmas : mm'.vmas = mm.vmas) (hbefore : ∀ b ∈ l, (mm.vmas b).vmEnd ≤ start)
    (hhit : ∀ a ∈ hit, (mm.vmas a).vmStart < stop) (hfirst : ∀ a ∈ hit, start < (mm.vmas a).vmEnd)
    (hone : ∀ a ∈ hit, ¬((mm.vmas a).vmStart < start ∧ stop < (mm.vmas a).vmEnd))
    (hrest : ∀ a ∈ rest, stop ≤ (mm.vmas a).vmStart) (hspare : ∀ a ∈ hit, Spare mm' a) :
    Pending A mm' start stop hit.reverse := by
  have hspread := hinv.spread
  rw [hl] at hspread
  obtain ⟨-, hpair, hcross⟩ := pairwise_append.mp hspread.ordered
  obtain ⟨hhits, -, hcross'⟩ := pairwise_append.mp hpair
  have hmem : ∀ {a}, a ∈ hit.reverse → a ∈ hit := mem_reverse.mp
  have hmem' : ∀ {a}, a ∈ hit → a ∈ mm.mmapList := fun ha => by
    rw [hl]
    simp [ha]
  constructor
  case nodup =>
    have hnd : (l ++ (hit ++ rest)).Nodup := hspread.nodup
    grind
  case spare => exact fun a ha => hspare a (hmem ha)
  case inUser => exact fun a ha => hvmas ▸ hinv.inUser a (hmem' (hmem ha))
  case meets => grind
  case oneSide => exact fun a ha => hvmas ▸ hone a (hmem ha)
  case apart =>
    rw [hvmas]
    exact pairwise_reverse.mpr (hhits.imp fun hab => .inr hab)
  case apartSet =>
    intro a ha b hb
    rw [hvmas]
    rw [hlist] at hb
    obtain hb | hb := mem_append.mp hb
    · exact .inl (hcross b hb a (mem_append_left _ (hmem ha)))
    · exact .inr (hcross' a (hmem ha) b hb)
  case outside =>
    intro b hb
    rw [hvmas]
    rw [hlist] at hb
    obtain hb | hb := mem_append.mp hb
    · exact .inl (hbefore b hb)
    · exact .inr (hrest b hb)

/-- What `mm_unmap` has done: on success the areas are cut at the range, on an error nothing has
changed. -/
def UnmapDone (A : Layout) (ops : PageOps P) (start stop : ℕ) (s : St P)
    (r : Except Errno Unit × St P) : Prop :=
  match r.1 with
  | .ok () => CutPost A ops start stop s.mm.Area
      (∀ a ∈ s.mm.mmapList, (s.mm.vmas a).share = false) s r.2
  | .error _ => MmInv A r.2.mm ∧ r.2.mm.self = s.mm.self ∧ r.2.mm.pgdir = s.mm.pgdir ∧
      (∀ x f, r.2.mm.Area x f ↔ s.mm.Area x f) ∧ r.2.kernel.shmems = s.kernel.shmems ∧
      r.2.kernel.pages = s.kernel.pages

/-- The range has no VMA. -/
lemma cutPost_of_free (hinv : MmInv A s'.mm) (hfree : s.mm.Free start stop) (hkernel : s'.kernel = s.kernel)
    (hself : s'.mm.self = s.mm.self) (hpgdir : s'.mm.pgdir = s.mm.pgdir)
    (hlist : s'.mm.mmapList = s.mm.mmapList) (hvmas : s'.mm.vmas = s.mm.vmas) {priv : Prop} :
    CutPost A ops start stop s.mm.Area priv s s' := by
  refine ⟨hinv, hself, hpgdir, fun x f => ?_, fun _ => ⟨by rw [hkernel], [], ?_, by simp, ?_⟩⟩
  · grind [Mm.Area, not_area_of_apart]
  · rw [hkernel]
    rfl
  · grind [not_area_of_apart]

variable {n : ℕ} {s₁ : St P}

section

variable (hinv : MmInv A s.mm) (hvma : vma ∈ s.mm.mmapList) (hstart : A.pgsize ∣ start)
include hinv hvma hstart

/-- A VMA is split: `vma_resize` to what is above the range, and `insert_vma_struct` of a new VMA for
what is below. -/
lemma mmUnmapInside_split (hstop : A.pgsize ∣ stop) (hlt : start < stop)
    (hlo : (s.mm.vmas vma).vmStart < start) (hhi : stop < (s.mm.vmas vma).vmEnd)
    (hnew : vmaCreate K s (s.mm.vmas vma).vmStart start (s.mm.vmas vma).vmFlags = (some n, s₁)) :
    ∃ mm s₃, vmaResize A s₁.mm vma stop (s.mm.vmas vma).vmEnd = .ok mm ∧
      insertVmaStruct K { s₁ with mm := mm } n = .ok s₃ ∧ MmInv A s₃.mm ∧
      (s₃.mm.self = s.mm.self ∧ s₃.mm.pgdir = s.mm.pgdir ∧ s₃.kernel.shmems = s.kernel.shmems ∧
        s₃.kernel.pages = s.kernel.pages) ∧
      s₃.mm.mmapList.Perm (n :: s.mm.mmapList) ∧
      s₃.mm.vmas n =
        ⟨s.mm.self, (s.mm.vmas vma).vmStart, start, (s.mm.vmas vma).vmFlags, none, 0⟩ ∧
      s₃.mm.vmas vma = (s.mm.vmas vma).resized A stop (s.mm.vmas vma).vmEnd ∧
      ∀ b ∈ s.mm.mmapList, b ≠ vma → s₃.mm.vmas b = s.mm.vmas b := by
  have huser := hinv.inUser vma hvma
  obtain ⟨hinv1, hspare1, hext1, hlist1, o, hvmas1⟩ := vmaCreate_some hinv hnew
  have hnot : n ∉ s.mm.mmapList := hlist1 ▸ hspare1.notMem
  have hnvma : n ≠ vma := fun hEq => hnot (hEq ▸ hvma)
  have hv1 : s₁.mm.vmas vma = s.mm.vmas vma := by rw [hvmas1, update_of_ne hnvma.symm]
  have hresize : vmaResize A s₁.mm vma stop (s.mm.vmas vma).vmEnd = .ok _ :=
    vmaResize_eq hstop huser.dvdEnd (by rw [hv1]; omega) hhi (by rw [hv1])
  rw [hv1] at hresize
  generalize hv : (s.mm.vmas vma).resized A stop (s.mm.vmas vma).vmEnd = v at *
  have hvs : v.vmStart = stop := by rw [← hv, resized]
  have hve : v.vmEnd = (s.mm.vmas vma).vmEnd := by rw [← hv, resized]
  have hvo : v.vmMm = (s.mm.vmas vma).vmMm := by rw [← hv, resized]
  have hvuser : v.InUser A := by
    refine ⟨hvs ▸ hstop, hve ▸ huser.dvdEnd, ?_, ?_, hve ▸ huser.access.2.2⟩
    · have := huser.access.1
      omega
    · omega
  have hinv2 : MmInv A (s₁.mm.setVma vma v) :=
    hinv1.setVma_shrink hvuser (hvo.trans (congrArg vmMm hv1.symm)) (by rw [hv1, hvs]; omega) (by rw [hv1, hve])
  have hn2 : (s₁.mm.setVma vma v).vmas n =
      ⟨o, (s.mm.vmas vma).vmStart, start, (s.mm.vmas vma).vmFlags, none, 0⟩ := by
    rw [Mm.setVma_of_ne hnvma, hvmas1, update_self]
  have hb2 : ∀ b ∈ s.mm.mmapList, b ≠ vma → (s₁.mm.setVma vma v).vmas b = s.mm.vmas b := by
    intro b hb hne
    have hbn : b ≠ n := fun hEq => hnot (hEq ▸ hb)
    rw [Mm.setVma_of_ne hne, hvmas1, update_of_ne hbn]
  -- the new VMA is apart from the rest of the old one and from the others
  obtain ⟨s₃, hins, hinv3, hext3, hperm3, hvmas3⟩ := insertVmaStruct_spec
    (s := { s₁ with mm := s₁.mm.setVma vma v }) hinv2
    { hspare1 with }
    (by rw [hn2]; exact ⟨huser.dvdStart, hstart, huser.access.1, hlo, by
      have := huser.access.2.2
      show start ≤ A.userTop
      omega⟩)
    (fun b hb => by
      replace hb : b ∈ s.mm.mmapList := hlist1 ▸ hb
      rw [hn2]
      by_cases hne : b = vma
      · rw [hne, Mm.setVma_same]
        exact .inr (by rw [hvs]; exact hlt.le)
      · rw [hb2 b hb hne]
        exact (hinv.spread.apart_of_ne hb hvma hne).imp id fun h => le_trans (by show start ≤ _; omega) h)
  refine ⟨_, s₃, hresize, hins, hinv3, ⟨hext3.self.trans hext1.self, hext3.pgdir.trans hext1.pgdir,
    hext3.shmems.trans hext1.shmems, hext3.pages.trans hext1.pages⟩, hlist1 ▸ hperm3, ?_, ?_,
    fun b hb hne => ?_⟩
  · rw [hvmas3, update_self, hn2, ← hext1.self]
    rfl
  · rw [hvmas3, update_of_ne hnvma.symm]
    exact Mm.setVma_same
  · rw [hvmas3, update_of_ne fun hEq : b = n => hnot (hEq ▸ hb)]
    exact hb2 b hb hne

/-- `mm_unmap` of a range strictly inside a VMA splits its region. -/
lemma mmUnmapInside_ensures (hstop : A.pgsize ∣ stop) (haccess : A.UserAccess start stop)
    (hlo : (s.mm.vmas vma).vmStart < start) (hhi : stop < (s.mm.vmas vma).vmEnd) :
    Ensures (PagesFail A ops) (mmUnmapInside A ops K s vma start stop) fun r =>
      UnmapDone A ops start stop s r ∧ UnmapRegions A start stop s r := by
  have hlt := haccess.2.1
  rw [mmUnmapInside]
  rcases hnew : vmaCreate K s (s.mm.vmas vma).vmStart start (s.mm.vmas vma).vmFlags with ⟨_ | n, s1⟩
  · obtain ⟨hmm, hsh, hp⟩ := vmaCreate_none hnew
    exact ⟨⟨hmm ▸ hinv, by rw [hmm], by rw [hmm], fun x f => by rw [hmm], hsh, hp⟩, by rw [hmm], hsh⟩
  obtain ⟨mm, s3, hresize, hins, hinv3, ⟨hself, hpgdir, hsh, hpg⟩, hperm, hn3, hv3, hb3⟩ :=
    mmUnmapInside_split hinv hvma hstart hstop hlt hlo hhi hnew
  have hr : SubRange A start stop (start, stop) := ⟨hstart, hstop, le_rfl, hlt, le_rfl⟩
  simp only [hresize, ok_bind, hins]
  refine (unmapRange_ensures ops s3 hr haccess).bind fun s' ⟨hmm', hsh', hcalls⟩ => ?_
  rw [hpgdir, hpg] at hcalls
  have hold := perm_cons_erase hvma
  have hne : ∀ c ∈ s.mm.mmapList.erase vma, c ≠ vma := fun c hc hEq =>
    Nodup.not_mem_erase hinv.nodup (hEq ▸ hc)
  have hsplit : SplitAt A start stop (s.mm.vmas vma).region
      (regionsOf s.mm.vmas (s.mm.mmapList.erase vma)) s s' := by
    refine ⟨?_, hlt, hlo, hhi, apart_regionsOf fun c hc => ?_, ?_, hsh'.trans hsh⟩
    · rw [Mm.regions, regionsOf_perm hold, regionsOf_cons]
    · obtain h | h := hinv.spread.apart_of_ne (mem_of_mem_erase hc) hvma (hne c hc)
      · exact .inl (h.trans hlo.le)
      · exact .inr (hhi.le.trans h)
    · rw [hmm', Mm.regions, regionsOf_perm (hperm.trans (hold.cons n)), regionsOf_cons, regionsOf_cons,
        regionsOf_congr fun c hc => hb3 c (mem_of_mem_erase hc) (hne c hc), hn3, hv3, Multiset.cons_swap]
      rfl
  refine ⟨⟨hmm' ▸ hinv3, by rw [hmm', hself], by rw [hmm', hpgdir], fun x f => hsplit.area,
    fun _ => ⟨hsh'.trans hsh, [(start, stop)], hcalls, ?_, ?_⟩⟩, .inr ⟨_, _, hsplit⟩⟩
  · exact fun r hr' => mem_singleton.mp hr' ▸ hr
  · grind [mem_singleton_self]

end

/-- The first loop of `mm_unmap`, started at the first VMA that reaches beyond the start of the range,
when the range is not strictly inside it. -/
lemma mmUnmapCollect_pending (hinv : MmInv A mm) (hfirst : firstAbove mm.vmas start mm.mmapList = some vma)
    (hinside : ¬((mm.vmas vma).vmStart < start ∧ stop < (mm.vmas vma).vmEnd)) :
    ∃ l hit rest mm', mm.mmapList = l ++ (hit ++ rest) ∧
      mmUnmapCollect stop mm.fuel mm vma [] = .ok (hit.reverse, mm') ∧ MmInv A mm' ∧
      mm'.mmapList = l ++ rest ∧ mm'.vmas = mm.vmas ∧ mm'.self = mm.self ∧ mm'.pgdir = mm.pgdir ∧
      Pending A mm' start stop hit.reverse := by
  obtain ⟨hend, l, post, hl, hbefore⟩ := firstAbove_eq_some hfirst
  obtain ⟨hit, rest, mm', hsplit, hrun, hinv', hlist, hvmas, hself, hpgdir, hhit, hrest, hspare,
    -⟩ := mmUnmapCollect_spec hinv hl
      (by grind [Mm.fuel] : post.length < mm.fuel)
      stop []
  have hspread := hinv.spread
  rw [hl] at hspread
  have hmem : ∀ {a}, a ∈ hit → a = vma ∨ a ∈ post := fun ha => by grind
  -- the VMAs behind the first one lie above the start of the range
  have hpost : ∀ a ∈ post, start < (mm.vmas a).vmStart := fun a ha =>
    hend.trans_le (hspread.middle.2 a ha)
  rw [hsplit] at hl hspread
  refine ⟨l, hit, rest, mm', hl, by rw [hrun, append_nil], hinv', hlist, hvmas, hself, hpgdir, ?_⟩
  refine pending_of_collect hinv hl hlist hvmas hbefore hhit (fun a ha => ?_) (fun a ha => ?_) hrest hspare
  · obtain rfl | hpa := hmem ha
    · exact hend
    · exact (hpost a hpa).trans (hspread.lt a (by simp [ha]))
  · grind

lemma cutAt_of_free (hfree : s.mm.Free start stop) (hlt : start < stop)
    (hregions : s'.mm.regions = s.mm.regions) (hsh : s'.kernel.shmems = s.kernel.shmems) :
    CutAt A start stop s s' where
  oneSide v hv hin := by
    obtain h | h := apart_regionsOf hfree v hv <;> omega
  regions := hregions.trans (bind_cut_of_apart (apart_regionsOf hfree)).symm
  drift k := by rw [St.drift, St.drift, hregions, hsh]

/-- `mm_unmap` from the first VMA that reaches beyond the start of the range. -/
lemma mmUnmapFrom_ensures (hinv : MmInv A s.mm) (hstart : A.pgsize ∣ start)
    (hstop : A.pgsize ∣ stop) (haccess : A.UserAccess start stop)
    (hfirst : firstAbove s.mm.vmas start s.mm.mmapList = some vma) :
    Ensures (UnmapFails A ops (Backed s.mm.regions)) (mmUnmapFrom A ops K s vma start stop) fun r =>
      UnmapDone A ops start stop s r ∧ (Backed s.mm.regions → UnmapRegions A start stop s r) := by
  have hvma : vma ∈ s.mm.mmapList := mem_of_find?_eq_some hfirst
  rw [mmUnmapFrom]
  split_ifs with habove hinside
  · have hfree : s.mm.Free start stop := hinv.free_of_firstAbove fun a ha => by grind
    exact ⟨cutPost_of_free hinv hfree rfl rfl rfl rfl rfl, fun _ => .inl (cutAt_of_free hfree haccess.2.1 rfl rfl)⟩
  · exact ((mmUnmapInside_ensures hinv hvma hstart hstop haccess hinside.1 hinside.2).tolerate
      fun _ => PagesFail.unmapFails).mono fun r hr => ⟨hr.1, fun _ => hr.2⟩
  · obtain ⟨l, hit, rest, mm', hl, hrun, hinv', hlist, hvmas, hself, hpgdir, hp⟩ :=
      mmUnmapCollect_pending hinv hfirst hinside
    simp only [hrun, ok_bind]
    have hold : s.mm.regions = regionsOf mm'.vmas hit.reverse + mm'.regions := by
      grind [Mm.regions, regionsOf_perm, reverse_perm, regionsOf_append]
    have hloop := @mmUnmapLoop_ensures P A ops K { s with mm := mm' } _ _ _ hinv' hp hstart hstop haccess
    have hback : Backed s.mm.regions → Backed (regionsOf mm'.vmas hit.reverse) := fun h v hv =>
      h v (hold ▸ Multiset.mem_add.mpr (.inl hv))
    refine (hloop.tolerate fun e he => ⟨he.1, fun h => he.2 (hback h)⟩).bind fun s' ⟨hcut, hrecut⟩ =>
      ⟨?_, fun h => .inl ?_⟩
    · -- the areas of the set and of `free_list` are those of the old set
      have harea : ∀ x f, (mm'.Area x f ∨ AreaIn mm'.vmas hit.reverse x f) ↔ s.mm.Area x f := by
        grind [Mm.Area, AreaIn.perm, reverse_perm, areaIn_append]
      refine ⟨hcut.inv, hcut.self.trans hself, hcut.pgdir.trans hpgdir, fun x f => ?_, fun hpriv => ?_⟩
      · rw [hcut.area, harea]
      · obtain ⟨hsh, ranges, hcalls, hsub, hcover⟩ := hcut.pages fun a ha => by
          rw [hvmas]
          exact hpriv a (by rw [hl]; simp [mem_reverse.mp ha])
        grind
    · have hout : ∀ v ∈ mm'.regions, v.ApartFrom start stop := apart_regionsOf hp.outside
      refine ⟨fun v hv hin => ?_, ?_, fun k => ?_⟩
      · obtain hv | hv := Multiset.mem_add.mp (hold ▸ hv)
        · obtain ⟨a, ha, rfl⟩ := mem_regionsOf.mp hv
          exact hp.oneSide a ha hin
        · have hlt := haccess.2.1
          obtain h | h := hout v hv <;> omega
      · rw [hrecut.regions, hold, Multiset.add_bind, bind_cut_of_apart hout]
      · have hdrift := hrecut.drift (hback h) k
        grind [St.drift, pointers_add]

/-- The cache does not matter. -/
lemma UnmapDone.of_cache {cache : Option ℕ} {r : Except Errno Unit × St P}
    (h : UnmapDone A ops start stop { s with mm := { s.mm with mmapCache := cache } } r) :
    UnmapDone A ops start stop s r := by
  obtain ⟨r | ⟨⟩, s'⟩ := r
  · exact h
  · exact { h with }

/-- `mm_unmap`. -/
lemma mmUnmap_spec (hinv : MmInv A s.mm) (addr len : ℕ) :
    Ensures (UnmapFails A ops (Backed s.mm.regions)) (mmUnmap A ops K s addr len) fun r =>
      UnmapDone A ops (A.roundDown addr) (A.rangeEnd addr len) s r ∧
        (Backed s.mm.regions → UnmapRegions A (A.roundDown addr) (A.rangeEnd addr len) s r) := by
  have hdown := A.dvd_roundDown addr
  have hup := A.dvd_rangeEnd addr len
  rw [mmUnmap]
  generalize A.roundDown addr = start at *
  generalize A.rangeEnd addr len = stop at *
  split_ifs with haccess
  swap
  · exact ⟨⟨hinv, rfl, rfl, fun _ _ => Iff.rfl, rfl, rfl⟩, fun _ => ⟨rfl, rfl⟩⟩
  obtain ⟨cache, hfind, hinv1⟩ := findVma_spec hinv start
  simp only [hfind, ok_bind]
  cases hfirst : firstAbove s.mm.vmas start s.mm.mmapList with
  | none =>
    have hfree : s.mm.Free start stop :=
      hinv.free_of_firstAbove fun a ha => (nomatch hfirst.symm.trans ha)
    have hcut : CutPost A ops start stop s.mm.Area
        (∀ a ∈ s.mm.mmapList, (s.mm.vmas a).share = false) s
        { s with mm := { s.mm with mmapCache := cache } } := by
      apply cutPost_of_free hinv1 hfree <;> rfl
    exact ⟨hcut, fun _ => .inl (cutAt_of_free hfree haccess.2.1 rfl rfl)⟩
  | some vma =>
    have hfrom : Ensures _
        (mmUnmapFrom A ops K { s with mm := { s.mm with mmapCache := cache } } vma start stop) _ :=
      mmUnmapFrom_ensures hinv1 hdown hup haccess hfirst
    refine hfrom.mono fun r hr => ⟨hr.1.of_cache, fun hback => ?_⟩
    have hregions := hr.2 hback
    obtain ⟨e | ⟨⟩, s'⟩ := r
    · exact hregions
    · exact hregions.imp ({ · with })
        fun ⟨v, rest, h⟩ => ⟨v, rest, h.old, h.range, h.below, h.above, h.apart, h.regions, h.shmems⟩

lemma mmUnmap_ensures (hinv : MmInv A s.mm) (addr len : ℕ) :
    Ensures Stop.Foreign (mmUnmap A ops K s addr len) fun r =>
      UnmapDone A ops (A.roundDown addr) (A.rangeEnd addr len) s r :=
  ((mmUnmap_spec hinv addr len).tolerate fun _ he => he.1).mono fun _ hr => hr.1

lemma mmUnmap_regions (hinv : MmInv A s.mm) (hback : Backed s.mm.regions) (addr len : ℕ) :
    Ensures (PagesFail A ops) (mmUnmap A ops K s addr len)
      (UnmapRegions A (A.roundDown addr) (A.rangeEnd addr len) s) :=
  ((mmUnmap_spec hinv addr len).tolerate fun _ he => he.2 hback).mono fun _ hr => hr.2 hback

/-! ### `mm_brk` and `dup_mmap` -/

/-- A VMA that ends at the start of a free range grows into it. -/
lemma MmInv.setVma_grow (h : MmInv A mm) (ha : a ∈ mm.mmapList) (hend : (mm.vmas a).vmEnd = start)
    (hstop : A.pgsize ∣ stop) (haccess : A.UserAccess start stop) (hfree : mm.Free start stop) :
    MmInv A (mm.setVma a { mm.vmas a with vmEnd := stop }) := by
  have huser := h.inUser a ha
  have hlt := haccess.2.1
  refine h.setVma ?_ fun _ => ⟨⟨huser.dvdStart, hstop, huser.access.1, ?_, haccess.2.2⟩, h.owner a ha⟩
  · refine Spread.grow (a := a) h.spread ?_ ?_ (fun b hb => ?_) fun b hb _ => ?_
    · simp only [update_self]
      omega
    · funext b
      by_cases hba : b = a
      · rw [hba, update_self]
      · rw [update_of_ne hba]
    · rw [update_of_ne hb]
    · simp only [update_self, hend]
      exact hfree b hb
  · exact lt_trans huser.access.2.1 (hend ▸ hlt)

/-- What the rest of `mm_brk` does to the VMAs: there is no memory for a new one, or the one below the
range gets a new end, or there is a new one. -/
inductive BrkGrew (start stop : ℕ) (mm mm' : Mm) : Except Errno Unit → Prop where
  | failed (e : Errno) (hlist : mm'.mmapList = mm.mmapList) (hvmas : mm'.vmas = mm.vmas) :
      BrkGrew start stop mm mm' (.error e)
  | grown (a : ℕ) (ha : a ∈ mm.mmapList) (hend : (mm.vmas a).vmEnd = start)
      (hflags : (mm.vmas a).vmFlags = vmRead ||| vmWrite) (hlist : mm'.mmapList = mm.mmapList)
      (hvmas : mm'.vmas = update mm.vmas a { mm.vmas a with vmEnd := stop }) :
      BrkGrew start stop mm mm' (.ok ())
  | added (a : ℕ) (hperm : mm'.mmapList.Perm (a :: mm.mmapList)) (hnot : a ∉ mm.mmapList)
      (hvmas : mm'.vmas = update mm.vmas a ⟨mm.self, start, stop, vmRead ||| vmWrite, none, 0⟩) :
      BrkGrew start stop mm mm' (.ok ())

/-- The rest of `mm_brk`, when the range is free. -/
lemma mmBrkGrow_spec (hinv : MmInv A s.mm) (hstart : A.pgsize ∣ start) (hstop : A.pgsize ∣ stop)
    (haccess : A.UserAccess start stop) (hfree : s.mm.Free start stop) :
    ∃ r s', mmBrkGrow K s start stop = .ok (r, s') ∧ MmInv A s'.mm ∧ s'.mm.pgdir = s.mm.pgdir ∧
      s'.kernel.shmems = s.kernel.shmems ∧ s'.kernel.pages = s.kernel.pages ∧
        BrkGrew start stop s.mm s'.mm r := by
  obtain ⟨cache, hfind, hinv1⟩ := findVma_spec hinv (start - 1)
  simp only [mmBrkGrow, hfind, ok_bind]
  split
  · next vma hfilter =>
      obtain ⟨hfirst, hcond⟩ := Option.filter_eq_some_iff.mp hfilter
      have hvma : vma ∈ s.mm.mmapList := mem_of_find?_eq_some hfirst
      obtain ⟨hend, hflags⟩ : (s.mm.vmas vma).vmEnd = start ∧
        (s.mm.vmas vma).vmFlags = vmRead ||| vmWrite := of_decide_eq_true hcond
      exact ⟨_, _, rfl, hinv1.setVma_grow hvma hend hstop haccess hfree, rfl, rfl, rfl,
        .grown vma hvma hend hflags rfl rfl⟩
  · rcases hnew : vmaCreate K { s with mm := { s.mm with mmapCache := cache } } start stop
        (vmRead ||| vmWrite) with ⟨_ | a, s1⟩
    · obtain ⟨hmm, hsh, hpages⟩ := vmaCreate_none hnew
      exact ⟨_, _, rfl, hmm ▸ hinv1, by rw [hmm], hsh, hpages, .failed _ (by rw [hmm]) (by rw [hmm])⟩
    · obtain ⟨s', hins, hinv', hext, hperm, hnot, hvmas⟩ :=
        vmaCreate_insert hnew hinv1 hstart hstop haccess hfree
      exact ⟨_, s', by simp only [hins, ok_bind]; rfl, hinv', hext.pgdir, hext.shmems, hext.pages,
        .added a hperm hnot hvmas⟩

/-- An address space whose areas avoid the range has no VMA that meets it. -/
lemma MmInv.free_of_area (h : MmInv A mm) (hrange : start < stop)
    (harea : ∀ x f, mm.Area x f → ¬(start ≤ x ∧ x < stop)) : mm.Free start stop := by
  intro b hb
  by_contra hmeet
  rw [Vma.ApartFrom, not_or, not_le, not_le] at hmeet
  have hlt : (mm.vmas b).vmStart < (mm.vmas b).vmEnd := h.spread.lt b hb
  -- the larger of the two lower ends is in both
  refine harea (max start (mm.vmas b).vmStart) (mm.vmas b).vmFlags ⟨b, hb, ?_⟩ ?_
  · exact ⟨le_max_right _ _, max_lt hmeet.1 hlt, rfl⟩
  · exact ⟨le_max_left _ _, max_lt hrange hmeet.2⟩

/-- `mm_brk`. -/
lemma mmBrk_ensures (hinv : MmInv A s.mm) (addr len : ℕ) :
    Ensures Stop.Foreign (mmBrk A ops K s addr len) fun r => MmInv A r.2.mm := by
  have hdown := A.dvd_roundDown addr
  have hup := A.dvd_rangeEnd addr len
  rw [mmBrk]
  generalize A.roundDown addr = start at *
  generalize A.rangeEnd addr len = stop at *
  split_ifs with haccess
  swap
  · exact hinv
  have hunmap : Ensures Stop.Foreign (mmUnmap A ops K s start (stop - start)) fun r =>
      UnmapDone A ops (A.roundDown start) (A.rangeEnd start (stop - start)) s r :=
    mmUnmap_ensures hinv start (stop - start)
  rw [Layout.roundDown_of_dvd hdown, Layout.rangeEnd_of_access hup haccess] at hunmap
  refine hunmap.bind fun r hr => ?_
  obtain ⟨e | ⟨⟩, s1⟩ := r
  · exact hr.1
  · refine Ensures.of_ok ?_
    obtain ⟨r, s', hrun, hinv', -⟩ := mmBrkGrow_spec hr.inv hdown hup haccess
      (hr.inv.free_of_area haccess.2.1 fun x f hx => ((hr.area x f).mp hx).2)
    exact ⟨_, hrun, hinv'⟩

/-- `copy_range` has been called for the ranges of these VMAs, one after the other, and has
succeeded each time. -/
def CopyCalls (ops : PageOps P) (target source : ℕ) (p : P) (vs : List Vma) (p' : P) : Prop :=
  vs.foldlM (fun p v => do
    let r ← ops.copyRange p target source v.vmStart v.vmEnd v.share
    if r.1 then some r.2 else none) p = some p'

/-- What the body of the loop of `dup_mmap` does: the set has a copy of the VMA, unless there was
no memory for it, and its range has been copied. -/
structure DupVmaPost (A : Layout) (ops : PageOps P) (source : ℕ) (v : Vma) (s : St P)
    (r : Except Errno Unit × St P) : Prop where
  inv : MmInv A r.2.mm
  self : r.2.mm.self = s.mm.self
  pgdir : r.2.mm.pgdir = s.mm.pgdir
  shmems : v.share = false → r.2.kernel.shmems = s.kernel.shmems
  ranges : ∀ b ∈ r.2.mm.mmapList, (∃ c ∈ s.mm.mmapList, r.2.mm.vmas b = s.mm.vmas c) ∨
    ((r.2.mm.vmas b).vmStart = v.vmStart ∧ (r.2.mm.vmas b).vmEnd = v.vmEnd)
  area : r.1 = .ok () → ∀ x f, r.2.mm.Area x f ↔ s.mm.Area x f ∨ v.Has x f
  pages : (r.1 ≠ .ok () ∧ r.2.kernel.pages = s.kernel.pages) ∨
    ∃ done, ops.copyRange s.kernel.pages s.mm.pgdir source v.vmStart v.vmEnd v.share =
      some (done, r.2.kernel.pages) ∧ (done = true ↔ r.1 = .ok ())

/-- A VMA after the part `if (vma->vm_flags & VM_SHARE)` of `dup_mmap`. -/
def Vma.dup (v : Vma) (self : ℕ) : Vma :=
  ⟨self, v.vmStart, v.vmEnd, v.vmFlags, if v.share then v.shmem else none, if v.share then v.shmemOff else 0⟩

/-- The errors of `dup_mmap`; if the VMAs are backed, it is a call into another file. -/
def DupFails (back : Prop) (e : Stop) : Prop := e.Foreign ∧ (back → e = .pages)

lemma dupFails_pages : DupFails back .pages := ⟨nofun, fun _ => rfl⟩

/-- The copy of a shared VMA takes a reference to its object. -/
lemma dupShmem_ensures (hinv : MmInv A s.mm) (hspare : Spare s.mm a) :
    Ensures (DupFails v.Backed) (dupShmem s v a) fun s' =>
      MmInv A s'.mm ∧ Extends { s with kernel := { s.kernel with shmems := s'.kernel.shmems } } s' ∧
      s'.mm.mmapList = s.mm.mmapList ∧ Spare s'.mm a ∧
      (∀ b, b ≠ a → s'.mm.vmas b = s.mm.vmas b) ∧
      (v.share = false → s'.kernel.shmems = s.kernel.shmems) ∧
      (v.Backed → ∀ k, (s'.kernel.shmems k).shmemRef =
        (s.kernel.shmems k).shmemRef + pointers {(v.dup 0).region} k) := by
  rw [dupShmem]
  cases hshare : v.share with
  | true =>
    rw [if_pos rfl]
    cases hsh : v.shmem with
    | none => exact ⟨nofun, fun hv => absurd hsh (hv.mp hshare)⟩
    | some j =>
      refine ⟨hinv.setVma_of_notMem hspare.notMem, ⟨rfl, rfl, rfl, rfl, rfl, fun b hb _ => { hb with }⟩, rfl,
        { hspare with }, fun b hb => Mm.setVma_of_ne hb, nofun,
        fun _ k => ?_⟩
      have hsome : (v.dup 0).region.shmem = some j := by simp [dup, region, hshare, hsh]
      obtain rfl | hkj := eq_or_ne k j
      · simp [shmemRefAdd, pointers, ← Multiset.cons_zero, hsome]
      · simp [shmemRefAdd, update_of_ne hkj, pointers, ← Multiset.cons_zero, hsome, Ne.symm hkj]
  | false =>
    refine ⟨hinv, ⟨rfl, rfl, rfl, rfl, rfl, fun _ hb _ => hb⟩, rfl, hspare, fun _ _ => rfl, fun _ => rfl,
      fun hv k => ?_⟩
    grind [dup, region, pointers_singleton_none]

lemma copyRange_ensures (ops : PageOps P) (s : St P) (source : ℕ) (huser : v.InUser A) :
    Ensures (DupFails back) (copyRange A ops s source v.vmStart v.vmEnd v.share) fun r =>
      r.2.mm = s.mm ∧ r.2.kernel.shmems = s.kernel.shmems ∧
      ops.copyRange s.kernel.pages s.mm.pgdir source v.vmStart v.vmEnd v.share =
        some (r.1, r.2.kernel.pages) := by
  simp only [copyRange, assert, Nat.mod_eq_zero_of_dvd huser.dvdStart,
    Nat.mod_eq_zero_of_dvd huser.dvdEnd, and_self, if_true, if_pos huser.access, ok_bind]
  cases hrun : ops.copyRange s.kernel.pages s.mm.pgdir source v.vmStart v.vmEnd v.share with
  | none => exact dupFails_pages
  | some r => exact ⟨rfl, rfl, rfl⟩

/-- `insert_vma_struct` of the copy of a VMA. -/
lemma dupVma_insert {s₂ : St P} (hinv : MmInv A s.mm) (huser : v.InUser A) (hfree : s.mm.Free v.vmStart v.vmEnd)
    (hnew : vmaCreate K s v.vmStart v.vmEnd v.vmFlags = (some n, s₁)) (hdup : dupShmem s₁ v n = .ok s₂) :
    ∃ s₃, insertVmaStruct K s₂ n = .ok s₃ ∧ MmInv A s₃.mm ∧
      (s₃.mm.self = s.mm.self ∧ s₃.mm.pgdir = s.mm.pgdir ∧ s₃.kernel.shmems = s₂.kernel.shmems ∧
        s₃.kernel.pages = s.kernel.pages) ∧ s₃.mm.mmapList.Perm (n :: s.mm.mmapList) ∧
      s₃.mm.vmas n = v.dup s.mm.self ∧ ∀ b ∈ s.mm.mmapList, s₃.mm.vmas b = s.mm.vmas b := by
  obtain ⟨hinv1, hspare1, hext1, hlist1, o, hvmas1⟩ := vmaCreate_some hinv hnew
  have h2 := dupShmem_ensures (v := v) hinv1 hspare1
  rw [hdup] at h2
  obtain ⟨hinv2, hext2, hlist2, hspare2, hother2, -⟩ := h2
  have hn2 : s₂.mm.vmas n = v.dup o := by
    have hn1 : s₁.mm.vmas n = ⟨o, v.vmStart, v.vmEnd, v.vmFlags, none, 0⟩ := by
      rw [hvmas1, update_self]
    rw [dupShmem, hn1] at hdup
    rw [dup]
    split_ifs at hdup ⊢ with hshare
    · cases hv : v.shmem with
      | none => exact nomatch hv ▸ hdup
      | some shmem =>
        rw [hv] at hdup
        rw [← Except.ok.inj hdup]
        exact Mm.setVma_same
    · rw [← Except.ok.inj hdup, hn1]
  have hlist : s₂.mm.mmapList = s.mm.mmapList := hlist2.trans hlist1
  have hnot : n ∉ s.mm.mmapList := hlist ▸ hspare2.notMem
  have hb2 : ∀ b ∈ s.mm.mmapList, s₂.mm.vmas b = s.mm.vmas b := fun b hb => by
    have hbn : b ≠ n := fun hEq => hnot (hEq ▸ hb)
    rw [hother2 b hbn, hvmas1, update_of_ne hbn]
  have hself : s₂.mm.self = s.mm.self := hext2.self.trans hext1.self
  obtain ⟨s₃, hins, hinv3, hext3, hperm3, hvmas3⟩ := insertVmaStruct_spec hinv2 hspare2
    (by rw [hn2]; exact { huser with }) (fun b hb => by
      rw [hlist] at hb
      rw [hb2 b hb, hn2]
      exact hfree b hb)
  refine ⟨s₃, hins, hinv3, ⟨hext3.self.trans hself, hext3.pgdir.trans (hext2.pgdir.trans hext1.pgdir),
    hext3.shmems, hext3.pages.trans (hext2.pages.trans hext1.pages)⟩, hlist ▸ hperm3, ?_, fun b hb => ?_⟩
  · rw [hvmas3, update_self, hn2, hself]
    rfl
  · rw [hvmas3, update_of_ne fun hEq : b = n => hnot (hEq ▸ hb)]
    exact hb2 b hb

/-- The regions are backed, if they and those of `back` were, and the references are those of the
regions. -/
def KeepsRefs (back : Prop) (s s' : St P) : Prop :=
  back → Backed s.mm.regions → Backed s'.mm.regions ∧ ∀ k, s'.drift k = s.drift k

/-- The body of the loop of `dup_mmap`. -/
lemma dupVma_ensures (source : ℕ) (hinv : MmInv A s.mm) (huser : v.InUser A)
    (hfree : s.mm.Free v.vmStart v.vmEnd) : Ensures (DupFails v.Backed) (dupVma A ops K source s v) fun r =>
      DupVmaPost A ops source v s r ∧ KeepsRefs v.Backed s r.2 := by
  rw [dupVma]
  rcases hnew : vmaCreate K s v.vmStart v.vmEnd v.vmFlags with ⟨_ | n, s1⟩
  · obtain ⟨hmm, hsh, hp⟩ := vmaCreate_none hnew
    refine ⟨⟨hmm ▸ hinv, by rw [hmm], by rw [hmm], fun _ => hsh, fun b hb => .inl ⟨b, ?_, ?_⟩,
      nofun, .inl ⟨nofun, hp⟩⟩, fun _ hback => ⟨?_, fun k => ?_⟩⟩
    · exact hmm ▸ hb
    · rw [hmm]
    · rwa [hmm]
    · rw [St.drift, St.drift, hmm, hsh]
  obtain ⟨hinv1, hspare1, hext1, -⟩ := vmaCreate_some hinv hnew
  refine (dupShmem_ensures hinv1 hspare1).bind_eq fun s2 hrun2 ⟨_, _, _, _, _, hpriv2, hrefs⟩ => ?_
  obtain ⟨s3, hins, hinv3, ⟨hself, hpgdir, hsh3, hpages⟩, hperm3, hn3, hb3⟩ :=
    dupVma_insert hinv huser hfree hnew hrun2
  simp only [hins, ok_bind]
  refine (copyRange_ensures ops s3 source huser).bind fun r ⟨hmm, hsh, hrun⟩ => ?_
  rw [hpgdir, hpages] at hrun
  refine ⟨⟨hmm ▸ hinv3, by rw [hmm, hself], by rw [hmm, hpgdir], fun hpriv => ?_, fun b hb => ?_,
    fun _ x f => ?_, .inr ⟨r.1, hrun, ?_⟩⟩, fun hv hback => ?_⟩
  · exact hsh.trans (hsh3.trans ((hpriv2 hpriv).trans hext1.shmems))
  · rw [hmm] at hb ⊢
    obtain rfl | hb := mem_cons.mp (hperm3.mem_iff.mp hb)
    · rw [hn3]
      exact .inr ⟨rfl, rfl⟩
    · exact .inl ⟨b, hb, hb3 b hb⟩
  · rw [hmm, Mm.Area, AreaIn.perm hperm3, areaIn_cons, areaIn_congr hb3, or_comm, hn3]
    rfl
  · cases r.1 <;> simp
  · have hregions : s3.mm.regions = (v.dup 0).region ::ₘ s.mm.regions := by
      rw [Mm.regions, regionsOf_of_perm hperm3 hb3, hn3]
      rfl
    refine ⟨?_, fun k => ?_⟩
    · rw [hmm, hregions, backed_cons]
      refine ⟨?_, hback⟩
      cases hshare : v.share with
      | false => exact backed_private hshare (by simp [dup, region, hshare])
      | true =>
        have hshare' : (v.dup 0).region.share = true := hshare
        exact iff_of_true hshare' (by simpa [dup, region, hshare] using hv.mp hshare)
    · have hrefs := hrefs hv k
      rw [hext1.shmems] at hrefs
      grind [St.drift, pointers_cons]

/-- What `dup_mmap` does: on success the set has a copy of every VMA and every range has been
copied; otherwise the copying has stopped somewhere. -/
structure DupPost (A : Layout) (ops : PageOps P) (source : ℕ) (vs : List Vma) (s : St P)
    (r : Except Errno Unit × St P) : Prop where
  inv : MmInv A r.2.mm
  self : r.2.mm.self = s.mm.self
  pgdir : r.2.mm.pgdir = s.mm.pgdir
  shmems : (∀ v ∈ vs, v.share = false) → r.2.kernel.shmems = s.kernel.shmems
  area : r.1 = .ok () → ∀ x f, r.2.mm.Area x f ↔ s.mm.Area x f ∨ ∃ v ∈ vs, v.Has x f
  pages : (r.1 = .ok () → CopyCalls ops s.mm.pgdir source s.kernel.pages vs r.2.kernel.pages) ∧
    (r.1 ≠ .ok () → ∃ vs₁ v vs₂ p, vs = vs₁ ++ v :: vs₂ ∧
      CopyCalls ops s.mm.pgdir source s.kernel.pages vs₁ p ∧ (r.2.kernel.pages = p ∨
        ops.copyRange p s.mm.pgdir source v.vmStart v.vmEnd v.share =
          some (false, r.2.kernel.pages)))

/-- The loop of `dup_mmap`. -/
lemma dupLoop_ensures (source : ℕ) {vs : List Vma} (hinv : MmInv A s.mm) (huser : ∀ v ∈ vs, v.InUser A)
    (hapart : vs.Pairwise fun v w => v.ApartFrom w.vmStart w.vmEnd)
    (hfree : ∀ v ∈ vs, s.mm.Free v.vmStart v.vmEnd) :
    Ensures (DupFails (∀ v ∈ vs, v.Backed)) (dupLoop A ops K source vs s) fun r =>
      DupPost A ops source vs s r ∧ KeepsRefs (∀ v ∈ vs, v.Backed) s r.2 := by
  induction vs generalizing s with
  | nil =>
    exact ⟨⟨hinv, rfl, rfl, fun _ => rfl, fun _ x f => by simp, fun _ => rfl,
      fun hf => absurd rfl hf⟩, fun _ hback => ⟨hback, fun _ => rfl⟩⟩
  | cons v vs ih =>
    rw [dupLoop]
    refine ((dupVma_ensures source hinv (huser v (.head _)) (hfree v (.head _))).tolerate
      fun e he => ⟨he.1, fun hvs => he.2 (hvs v (.head _))⟩).bind fun r hr => ?_
    obtain ⟨hr, hrefs⟩ := hr
    obtain ⟨e | ⟨⟩, s1⟩ := r
    · refine ⟨⟨hr.inv, hr.self, hr.pgdir, fun hpriv => hr.shmems (hpriv v (.head _)),
        by simp, by simp, fun _ => ?_⟩, fun hvs => hrefs (hvs v (.head _))⟩
      refine ⟨[], v, vs, s.kernel.pages, rfl, rfl, hr.pages.imp And.right ?_⟩
      grind
    · obtain ⟨hne, -⟩ | ⟨done, hrun, hdone⟩ := hr.pages
      · exact absurd rfl hne
      obtain rfl := hdone.mpr rfl
      have hfree1 : ∀ w ∈ vs, ∀ b ∈ s1.mm.mmapList, (s1.mm.vmas b).ApartFrom w.vmStart w.vmEnd := by
        intro w hw b hb
        obtain ⟨c, hc, hEq⟩ | ⟨hEq1, hEq2⟩ := hr.ranges b hb
        · grind
        · rw [Vma.ApartFrom, hEq1, hEq2]
          exact (pairwise_cons.mp hapart).1 w hw
      refine ((ih hr.inv (fun w hw => huser w (.tail v hw))
        hapart.of_cons hfree1).tolerate fun e he =>
          ⟨he.1, fun hvs => he.2 fun w hw => hvs w (.tail v hw)⟩).mono fun r h' => ?_
      obtain ⟨hloop, hrefs'⟩ := h'
      have hcalls : ∀ {us p}, CopyCalls ops s1.mm.pgdir source s1.kernel.pages us p →
          CopyCalls ops s.mm.pgdir source s.kernel.pages (v :: us) p := by
        intro us p h
        rw [hr.pgdir] at h
        rw [CopyCalls, foldlM_cons, hrun]
        exact h
      refine ⟨⟨hloop.inv, hloop.self.trans hr.self, hloop.pgdir.trans hr.pgdir, fun hpriv => ?_,
        fun hok x f => ?_, fun hok => hcalls (hloop.pages.1 hok), fun hne => ?_⟩, fun hvs hback => ?_⟩
      · rw [hloop.shmems fun w hw => hpriv w (.tail v hw)]
        exact hr.shmems (hpriv v (.head _))
      · rw [hloop.area hok, hr.area rfl, or_assoc]
        simp
      · obtain ⟨vs1, w, vs2, p, rfl, hdone, hlast⟩ := hloop.pages.2 hne
        rw [hr.pgdir] at hlast
        grind
      · obtain ⟨hback1, hdrift⟩ := hrefs (hvs v (.head _)) hback
        obtain ⟨hback', hdrift'⟩ := hrefs' (fun w hw => hvs w (.tail v hw)) hback1
        exact ⟨hback', fun k => (hdrift' k).trans (hdrift k)⟩

section

variable {old : Mm} (hinv : MmInv A s.mm) (hnew : s.mm.mmapList = []) (hfrom : MmInv A old)
include hinv hnew hfrom

/-- `dup_mmap` into an address space without VMAs. -/
lemma dupMmap_spec : Ensures (DupFails (∀ v ∈ old.mmapList.reverse.map old.vmas, v.Backed)) (dupMmap A ops K s old)
      fun r => DupPost A ops old.pgdir (old.mmapList.reverse.map old.vmas) s r ∧
        KeepsRefs (∀ v ∈ old.mmapList.reverse.map old.vmas, v.Backed) s r.2 := by
  refine dupLoop_ensures old.pgdir hinv (fun v hv => ?_) ?_ (fun v _ b hb => ?_)
  · obtain ⟨a, ha, rfl⟩ := mem_map.mp hv
    exact hfrom.inUser a (mem_reverse.mp ha)
  · rw [pairwise_map, pairwise_reverse]
    exact hfrom.spread.ordered.imp fun hab => .inr hab
  · rw [hnew] at hb
    cases hb

lemma dupMmap_ensures : Ensures Stop.Foreign (dupMmap A ops K s old)
      (DupPost A ops old.pgdir (old.mmapList.reverse.map old.vmas) s) :=
  ((dupMmap_spec hinv hnew hfrom).tolerate fun _ he => he.1).mono fun _ hr => hr.1

lemma dupMmap_regions (hold : Backed old.regions) : Ensures (· = .pages) (dupMmap A ops K s old)
      fun r => Backed r.2.mm.regions ∧ ∀ k, r.2.drift k = s.drift k := by
  have hvs : ∀ v ∈ old.mmapList.reverse.map old.vmas, v.Backed := fun v hv => by
    obtain ⟨a, ha, rfl⟩ := mem_map.mp hv
    have hregion : (old.vmas a).region.Backed :=
      hold _ (mem_regionsOf.mpr ⟨a, mem_reverse.mp ha, rfl⟩)
    exact hregion
  refine ((dupMmap_spec hinv hnew hfrom).tolerate fun _ he => he.2 hvs).mono fun _ hr => hr.2 hvs ?_
  rw [Mm.regions, hnew]
  exact fun v hv => absurd hv (by simp [regionsOf])

end

end UcoreKernel.Vmm
