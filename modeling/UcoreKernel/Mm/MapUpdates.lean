import UcoreKernel.Mm.MapLengths
import UcoreKernel.Mm.PageTable

/-!
`mm_map` and `mm_unmap` as updates of a function.

An address space with private VMAs is a function from addresses to flags, `Mm.mapping`. A call that succeeds
changes this function on the pages of its range and nowhere else, and takes the page table entries of the
range away if the pages are unmapped; a call that fails changes neither. The list, the tree and the splitting
of VMAs are not seen any more.
-/

namespace UcoreKernel.Vmm

open RadixTable Function List

variable {P : Type} {A : Layout} {ops : PageOps P} {K : Kmalloc} {mm mm' : Mm} {s s' : St P}
  {addr len x : ℕ} {vmFlags : BitVec 32}

/-! ### The pages of a range -/

/-- The address is in one of the pages of the range: it is not below the page of `addr`, and not above the
page that the range ends in. -/
def Layout.InPages (A : Layout) (addr len x : ℕ) : Prop :=
  A.roundDown addr ≤ x ∧ x < (addr + len + A.pgsize - 1) / A.pgsize * A.pgsize

instance (addr len x : ℕ) : Decidable (A.InPages addr len x) := inferInstanceAs (Decidable (_ ∧ _))

section

variable (hfits : addr + len < 2 ^ A.wordBits) (haccess : A.UserAccess (A.roundDown addr) (A.rangeEnd addr len))
include hfits haccess

/-- The end of a range that is accepted. -/
lemma Layout.rangeEnd_eq : A.rangeEnd addr len = (addr + len + A.pgsize - 1) / A.pgsize * A.pgsize := by
  have hend : A.rangeEnd addr len = A.roundDown ((addr + len + A.pgsize - 1) % 2 ^ A.wordBits) := by
    rw [rangeEnd, Nat.mod_eq_of_lt hfits, roundUp]
  by_cases hup : addr + len + A.pgsize - 1 < 2 ^ A.wordBits
  · grind [Nat.mod_eq_of_lt, roundDown, Nat.div_add_mod]
  · -- the end would be 0
    have hle := A.le_rangeEnd hfits haccess
    have htop := haccess.2.2
    have := A.userTop_le
    omega

lemma Layout.inPages_iff : A.InPages addr len x ↔ A.roundDown addr ≤ x ∧ x < A.rangeEnd addr len := by
  rw [InPages, A.rangeEnd_eq hfits haccess]

end

/-! ### The function of an address space -/

instance (v : Vma) (x : ℕ) : Decidable (v.Covers x) := inferInstanceAs (Decidable (_ ∧ _))

/-- The flags and the object of the VMA that has an address. -/
def Mm.mapping (mm : Mm) (x : ℕ) : Option (BitVec 32 × Option ℕ) :=
  (mm.mmapList.find? fun a => (mm.vmas a).Covers x).map fun a => ((mm.vmas a).vmFlags, (mm.vmas a).shmem)

/-- No VMA is shared. -/
def Private (mm : Mm) : Prop := ∀ v ∈ mm.regions, v.share = false ∧ v.shmem = none

lemma Private.vma (h : Private mm) {a : ℕ} (ha : a ∈ mm.mmapList) :
    (mm.vmas a).share = false ∧ (mm.vmas a).shmem = none :=
  h (mm.vmas a).region (mem_regionsOf.mpr ⟨a, ha, rfl⟩)

lemma Private.backed (h : Private mm) : Backed mm.regions :=
  fun v hv => Vma.backed_private (h v hv).1 (h v hv).2

section

variable (hinv : MmInv A mm) (hpriv : Private mm)
include hinv hpriv

/-- The function of an address space with private VMAs, by its areas. -/
lemma MmInv.mapping_eq_some {w : BitVec 32 × Option ℕ} :
    mm.mapping x = some w ↔ w.2 = none ∧ mm.Area x w.1 := by
  rw [Mm.mapping, Option.map_eq_some_iff]
  constructor
  · rintro ⟨a, hfind, rfl⟩
    have ha := mem_of_find?_eq_some hfind
    have hcovers : (mm.vmas a).Covers x := by simpa using find?_some hfind
    exact ⟨(hpriv.vma ha).2, a, ha, hcovers.1, hcovers.2, rfl⟩
  · rintro ⟨hnone, a, ha, hlo, hhi, hflags⟩
    obtain ⟨b, hfind⟩ := Option.isSome_iff_exists.mp
      (find?_isSome.mpr ⟨a, ha, decide_eq_true ⟨hlo, hhi⟩⟩ : (mm.mmapList.find? fun a => (mm.vmas a).Covers x).isSome)
    have hb := mem_of_find?_eq_some hfind
    have hcovers : (mm.vmas b).Covers x := by simpa using find?_some hfind
    -- two VMAs have no address in common
    obtain rfl : a = b := by
      by_contra hne
      obtain ⟨hlo', hhi'⟩ := hcovers
      obtain h | h := hinv.spread.apart_of_ne ha hb hne
      · exact absurd (hhi.trans_le h) (not_lt.mpr hlo')
      · exact absurd (hhi'.trans_le h) (not_lt.mpr hlo)
    exact ⟨a, hfind, Prod.ext hflags ((hpriv.vma ha).2.trans hnone.symm)⟩

lemma MmInv.mapping_ne_none : mm.mapping x ≠ none ↔ ∃ f, mm.Area x f := by
  rw [Option.ne_none_iff_exists']
  constructor
  · rintro ⟨w, hw⟩
    exact ⟨w.1, ((hinv.mapping_eq_some hpriv).mp hw).2⟩
  · rintro ⟨f, hf⟩
    exact ⟨(f, none), (hinv.mapping_eq_some hpriv).mpr ⟨rfl, hf⟩⟩

/-- Two address spaces with the same areas. -/
lemma mapping_congr (hinv' : MmInv A mm') (hpriv' : Private mm')
    (h : ∀ f, mm'.Area x f ↔ mm.Area x f) : mm'.mapping x = mm.mapping x := by
  refine Option.ext fun w => ?_
  rw [hinv'.mapping_eq_some hpriv', hinv.mapping_eq_some hpriv, h]

end

/-! ### Pages -/

/-- The constants of a port and its page tables, which reach all user addresses. -/
structure Port where
  layout : Layout
  paging : Paging
  unit_eq : paging.radix.unit = layout.pgsize
  wordBits_eq : paging.wordBits = layout.wordBits
  reach : layout.userTop ≤ paging.radix.span (paging.top + 2)

/-- The port to the i386: page tables of 1024 entries, on two levels. -/
def Port.i386 : Port where
  layout := Layout.i386
  paging := ⟨⟨4096, fun _ => 1024, Layout.i386.pgsize_pos, fun _ => by decide⟩, 0, 32⟩
  unit_eq := rfl
  wordBits_eq := rfl
  reach := by decide

/-- The page tables, by their `pgdir`. -/
abbrev Port.Pages (T : Port) (β : Type) : Type := ℕ → Table β (T.paging.top + 1)

variable {β : Type} [Zero β] [DecidableEq β] {T : Port}

/-- The calls into `pmm.c` and `shmem.c`. -/
def Port.pageOps (T : Port) (copy : T.Pages β → ℕ → ℕ → ℕ → ℕ → Bool → Option (Bool × T.Pages β))
    (destroy : T.Pages β → ℕ → T.Pages β) : PageOps (T.Pages β) where
  unmapRange p pgdir start stop := (unmapRangePgd T.paging (p pgdir) start stop).map (update p pgdir)
  copyRange := copy
  shmemDestroy p shmem := some (destroy p shmem)

/-- The page table entry of an address. -/
def Port.pte (T : Port) (p : T.Pages β) (pgdir x : ℕ) : β :=
  T.paging.radix.lookup (T.paging.top + 1) (p pgdir) x

section PageOps

variable {copy : T.Pages β → ℕ → ℕ → ℕ → ℕ → Bool → Option (Bool × T.Pages β)}
  {destroy : T.Pages β → ℕ → T.Pages β} {p p' : T.Pages β} {pgdir start stop : ℕ}

/-- The addresses in user memory are in reach of the page tables. -/
lemma Port.unmapRangePgd_spec (T : Port) (t : Table β (T.paging.top + 1)) (hstart : T.layout.pgsize ∣ start)
    (hstop : T.layout.pgsize ∣ stop) (haccess : T.layout.UserAccess start stop) :
    ∃ t', unmapRangePgd T.paging t start stop = some t' ∧
      Cleared T.paging (T.paging.top + 1) (T.paging.radix.span (T.paging.top + 2)) start stop t t' := by
  obtain ⟨-, hlt, htop⟩ := haccess
  have hword := T.layout.userTop_le
  have hpos := T.layout.pgsize_pos
  rw [← T.wordBits_eq] at hword
  rw [← T.unit_eq] at hstart hstop
  exact Vmm.unmapRangePgd_spec t hlt (htop.trans T.reach) hstart hstop (by omega)

/-- The calls into the other files return. -/
lemma Port.not_pagesFail (e : Stop) : ¬PagesFail T.layout (T.pageOps copy destroy) e := by
  rintro ⟨-, ⟨p, pgdir, start, stop, hstart, hstop, haccess, hnone⟩ | ⟨p, shmem, hnone⟩⟩
  · obtain ⟨t', hrun, -⟩ := T.unmapRangePgd_spec (p pgdir) hstart hstop haccess
    have hmap : (unmapRangePgd T.paging (p pgdir) start stop).map (update p pgdir) = none := hnone
    rw [hrun] at hmap
    cases hmap
  · cases hnone

/-- The entries after a sequence of calls of `unmap_range`. -/
lemma UnmapCalls.pte {ranges : List (ℕ × ℕ)} (hcalls : UnmapCalls (T.pageOps copy destroy) pgdir p ranges p')
    (haccess : T.layout.UserAccess start stop) (hranges : ∀ r ∈ ranges, SubRange T.layout start stop r) :
    (∀ d, d ≠ pgdir → p' d = p d) ∧ ∀ x < T.paging.radix.span (T.paging.top + 2),
      T.pte p' pgdir x = if ∃ r ∈ ranges, r.1 ≤ x ∧ x < r.2 then 0 else T.pte p pgdir x := by
  induction ranges generalizing p with
  | nil =>
    cases hcalls
    exact ⟨fun d _ => rfl, fun x _ => by simp⟩
  | cons r ranges ih =>
    obtain ⟨hd1, hd2, h1, h2, h3⟩ := hranges r (.head _)
    obtain ⟨t', hrun, hcleared⟩ := T.unmapRangePgd_spec (p pgdir) hd1 hd2
      ⟨haccess.1.trans h1, h2, h3.trans haccess.2.2⟩
    have hfirst : (T.pageOps copy destroy).unmapRange p pgdir r.1 r.2 = some (update p pgdir t') := by
      change (unmapRangePgd T.paging (p pgdir) r.1 r.2).map _ = _
      rw [hrun]
      rfl
    have hrest : UnmapCalls (T.pageOps copy destroy) pgdir (update p pgdir t') ranges p' := by
      grind [UnmapCalls]
    obtain ⟨hother, hpte⟩ := ih hrest fun r hr => hranges r (.tail _ hr)
    refine ⟨fun d hd => by rw [hother d hd, update_of_ne hd], fun x hx => ?_⟩
    have hmid : T.pte (update p pgdir t') pgdir x =
        if r.1 ≤ x ∧ x < r.2 then 0 else T.pte p pgdir x := by
      rw [Port.pte, update_self]
      exact hcleared x hx
    rw [hpte x hx, hmid]
    by_cases hlater : ∃ r ∈ ranges, r.1 ≤ x ∧ x < r.2
    · rw [if_pos hlater, if_pos ((exists_mem_cons_iff _ _ _).mpr (.inr hlater))]
    · simp only [if_neg hlater, exists_mem_cons_iff, or_iff_left hlater]

end PageOps

/-! ### Address spaces -/

/-- An address space with private VMAs. Its pages lie in its VMAs. -/
structure UserSpace (T : Port) (β : Type) [Zero β] where
  st : St (T.Pages β)
  inv : MmInv T.layout st.mm
  priv : Private st.mm
  present : ∀ x, T.layout.userBase ≤ x → x < T.layout.userTop → T.pte st.kernel.pages st.mm.pgdir x ≠ 0 →
    st.mm.mapping x ≠ none

namespace UserSpace

variable {copy : T.Pages β → ℕ → ℕ → ℕ → ℕ → Bool → Option (Bool × T.Pages β)}
  {destroy : T.Pages β → ℕ → T.Pages β} {S S' : UserSpace T β}

/-- The page tables and the function of the address space are as before. -/
structure Same (S S' : UserSpace T β) : Prop where
  mapping : ∀ x, S'.st.mm.mapping x = S.st.mm.mapping x
  pgdir : S'.st.mm.pgdir = S.st.mm.pgdir
  pages : S'.st.kernel.pages = S.st.kernel.pages

/-- The pages of the range are unmapped, and everything else is as before. -/
structure Unmapped (addr len : ℕ) (S S' : UserSpace T β) : Prop where
  mapping : ∀ x, S'.st.mm.mapping x = if T.layout.InPages addr len x then none else S.st.mm.mapping x
  pgdir : S'.st.mm.pgdir = S.st.mm.pgdir
  pte : ∀ x < T.paging.radix.span (T.paging.top + 2), T.pte S'.st.kernel.pages S'.st.mm.pgdir x =
    if T.layout.InPages addr len x then 0 else T.pte S.st.kernel.pages S.st.mm.pgdir x
  others : ∀ d, d ≠ S.st.mm.pgdir → S'.st.kernel.pages d = S.st.kernel.pages d

/-- The pages of the range were free and are mapped with the flags, and everything else is as before. -/
structure Mapped (addr len : ℕ) (f : BitVec 32) (S S' : UserSpace T β) : Prop where
  free : ∀ x, T.layout.InPages addr len x → S.st.mm.mapping x = none
  mapping : ∀ x, S'.st.mm.mapping x =
    if T.layout.InPages addr len x then some (f, none) else S.st.mm.mapping x
  pgdir : S'.st.mm.pgdir = S.st.mm.pgdir
  pages : S'.st.kernel.pages = S.st.kernel.pages

/-- The VMAs that `mm_unmap` leaves are private. -/
lemma private_of_unmapRegions {start stop : ℕ} {r : Except Errno Unit × St P} (hpriv : Private s.mm)
    (h : UnmapRegions A start stop s r) : Private r.2.mm := by
  obtain ⟨e | ⟨⟩, s'⟩ := r
  · intro v hv
    rw [h.1] at hv
    exact hpriv v hv
  · intro w hw
    obtain hcut | ⟨v, rest, hsplit⟩ := h
    · rw [hcut.regions, Multiset.mem_bind] at hw
      obtain ⟨v, hv, hw⟩ := hw
      rw [Vma.cut] at hw
      split_ifs at hw
      · rw [Multiset.mem_singleton.mp hw]
        exact hpriv v hv
      · rw [Multiset.mem_singleton.mp hw]
        exact hpriv v hv
      · rw [Multiset.mem_singleton.mp hw]
        exact hpriv v hv
      · exact absurd hw (Multiset.notMem_zero w)
    · have hold := hpriv
      rw [Private, hsplit.old] at hold
      have hv := hold v (Multiset.mem_cons_self v rest)
      rw [hsplit.regions, Multiset.mem_cons, Multiset.mem_cons] at hw
      obtain rfl | rfl | hw := hw
      · exact hv
      · exact ⟨hv.1, rfl⟩
      · exact hold w (Multiset.mem_cons_of_mem hw)

/-- A call of `mm_unmap` that succeeds has passed the check of the range. -/
lemma access_of_mmUnmap_ok {u : Unit} (h : mmUnmap A ops K s addr len = .ok (.ok u, s')) :
    A.UserAccess (A.roundDown addr) (A.rangeEnd addr len) := by grind [mmUnmap]

/-- `mm_unmap` returns; what it does is said by the cut areas and the calls of `unmap_range`. -/
lemma exists_mmUnmap (copy : T.Pages β → ℕ → ℕ → ℕ → ℕ → Bool → Option (Bool × T.Pages β))
    (destroy : T.Pages β → ℕ → T.Pages β) (K : Kmalloc) (S : UserSpace T β) (addr len : ℕ) :
    ∃ r s', mmUnmap T.layout (T.pageOps copy destroy) K S.st addr len = .ok (r, s') ∧ Private s'.mm ∧
      UnmapDone T.layout (T.pageOps copy destroy) (T.layout.roundDown addr) (T.layout.rangeEnd addr len) S.st
        (r, s') := by
  have hregions : Except.Ensures _ (mmUnmap T.layout (T.pageOps copy destroy) K S.st addr len) _ :=
    mmUnmap_regions S.inv S.priv.backed addr len
  have hdone : Except.Ensures _ (mmUnmap T.layout (T.pageOps copy destroy) K S.st addr len) _ :=
    mmUnmap_ensures S.inv addr len
  cases hrun : mmUnmap T.layout (T.pageOps copy destroy) K S.st addr len with
  | error e =>
    rw [hrun] at hregions
    exact absurd hregions (Port.not_pagesFail e)
  | ok r =>
    rw [hrun] at hregions hdone
    exact ⟨r.1, r.2, rfl, private_of_unmapRegions S.priv hregions, hdone⟩

variable (copy destroy K) in
/-- `mm_unmap`. -/
lemma exists_unmap (S : UserSpace T β) (hfits : addr + len < 2 ^ T.layout.wordBits) :
    ∃ (r : Except Errno Unit) (S' : UserSpace T β),
      mmUnmap T.layout (T.pageOps copy destroy) K S.st addr len = .ok (r, S'.st) ∧
        (r = .ok () → Unmapped addr len S S') ∧ ∀ e, r = .error e → Same S S' := by
  obtain ⟨r, s', hrun, hpriv, hdone⟩ :=
    exists_mmUnmap copy destroy K S addr len
  cases r with
  | error e =>
    obtain ⟨hinv, -, hpgdir, harea, -, hpages⟩ := hdone
    have hmap : ∀ x, s'.mm.mapping x = S.st.mm.mapping x :=
      fun x => mapping_congr S.inv S.priv hinv hpriv (harea x)
    refine ⟨.error e, ⟨s', hinv, hpriv, fun x hlo hhi hx => ?_⟩, hrun, nofun, fun _ _ =>
      ⟨hmap, hpgdir, hpages⟩⟩
    rw [hpages, hpgdir] at hx
    rw [hmap]
    exact S.present x hlo hhi hx
  | ok _ =>
    have haccess := access_of_mmUnmap_ok hrun
    obtain ⟨hinv, -, hpgdir, harea, hpages⟩ := hdone
    obtain ⟨-, ranges, hcalls, hsub, hcover⟩ := hpages fun a ha => (S.priv.vma ha).1
    obtain ⟨hothers, hpte⟩ := hcalls.pte haccess hsub
    have hmap : ∀ x, s'.mm.mapping x =
        if T.layout.InPages addr len x then none else S.st.mm.mapping x := by
      intro x
      refine Option.ext fun w => ?_
      rw [hinv.mapping_eq_some hpriv, harea, ← T.layout.inPages_iff hfits haccess]
      split_ifs with hin
      · simp [hin]
      · rw [S.inv.mapping_eq_some S.priv]
        grind
    have hentry : ∀ x < T.paging.radix.span (T.paging.top + 2), T.pte s'.kernel.pages s'.mm.pgdir x =
        if T.layout.InPages addr len x then 0 else T.pte S.st.kernel.pages S.st.mm.pgdir x := by
      intro x hx
      rw [hpgdir, hpte x hx]
      by_cases hpages : T.layout.InPages addr len x
      · have hin := (T.layout.inPages_iff hfits haccess).mp hpages
        rw [if_pos hpages]
        split_ifs with hcalled
        · rfl
        · -- a page would be in a VMA, and `unmap_range` is called for all of those in the range
          by_contra hne
          obtain ⟨f, hf⟩ := (S.inv.mapping_ne_none S.priv).mp
            (S.present x (haccess.1.trans hin.1) (hin.2.trans_le haccess.2.2) hne)
          exact hcalled (hcover x f hf hin.1 hin.2)
      · rw [if_neg hpages, if_neg]
        rintro ⟨r, hr, hlo, hhi⟩
        obtain ⟨-, -, h1, -, h3⟩ := hsub r hr
        exact hpages ((T.layout.inPages_iff hfits haccess).mpr ⟨h1.trans hlo, hhi.trans_le h3⟩)
    refine ⟨.ok (), ⟨s', hinv, hpriv, fun x hlo hhi hx => ?_⟩, hrun, fun _ => ⟨hmap, hpgdir, hentry, hothers⟩, nofun⟩
    rw [hentry x (hhi.trans_le T.reach)] at hx
    rw [hmap]
    split_ifs at hx ⊢ with hin
    · exact absurd rfl hx
    · exact S.present x hlo hhi hx

/-- The areas after a VMA has been added. -/
lemma area_of_map {a start stop : ℕ} {f g : BitVec 32} {o : ℕ} (hperm : mm'.mmapList.Perm (a :: mm.mmapList))
    (hnot : a ∉ mm.mmapList) (hvmas : mm'.vmas = update mm.vmas a ⟨o, start, stop, f, none, 0⟩) :
    mm'.Area x g ↔ (start ≤ x ∧ x < stop ∧ f = g) ∨ mm.Area x g := by
  rw [Mm.Area, AreaIn.perm hperm, areaIn_cons, hvmas, update_self]
  refine or_congr Iff.rfl (areaIn_congr fun b hb => ?_)
  rw [update_of_ne fun h : b = a => hnot (h ▸ hb)]

/-- A VMA that is not shared has been added. -/
lemma private_of_map {a start stop o : ℕ} {f : BitVec 32} (hpriv : Private mm)
    (hperm : mm'.mmapList.Perm (a :: mm.mmapList)) (hnot : a ∉ mm.mmapList)
    (hvmas : mm'.vmas = update mm.vmas a ⟨o, start, stop, f, none, 0⟩)
    (hf : Vma.share ⟨o, start, stop, f, none, 0⟩ = false) : Private mm' := by
  intro v hv
  obtain ⟨b, hb, rfl⟩ := mem_regionsOf.mp hv
  rw [hvmas]
  obtain rfl | hb := mem_cons.mp (hperm.mem_iff.mp hb)
  · rw [update_self]
    exact ⟨hf, rfl⟩
  · rw [update_of_ne fun h : b = a => hnot (h ▸ hb)]
    exact hpriv.vma hb

/-- The mapping after an area has been added where nothing was. -/
lemma mapping_of_map {start stop : ℕ} {f : BitVec 32} (h : MmInv A mm) (hpriv : Private mm) (h' : MmInv A mm')
    (hpriv' : Private mm') (harea : ∀ g, mm'.Area x g ↔ (start ≤ x ∧ x < stop ∧ f = g) ∨ mm.Area x g)
    (hnone : start ≤ x ∧ x < stop → mm.mapping x = none) :
    mm'.mapping x = if start ≤ x ∧ x < stop then some (f, none) else mm.mapping x := by
  refine Option.ext fun w => ?_
  rw [h'.mapping_eq_some hpriv', harea]
  split_ifs with hx
  · have hempty : ¬mm.Area x w.1 := fun hf => (h.mapping_ne_none hpriv).mpr ⟨_, hf⟩ (hnone hx)
    rw [Option.some.injEq, Prod.ext_iff, or_iff_left hempty]
    constructor
    · rintro ⟨hw, -, -, hf⟩
      exact ⟨hf, hw.symm⟩
    · rintro ⟨hf, hw⟩
      exact ⟨hw.symm, hx.1, hx.2, hf⟩
  · rw [h.mapping_eq_some hpriv, or_iff_right fun h => hx ⟨h.1, h.2.1⟩]

omit [DecidableEq β] in
/-- `mm_map`. -/
lemma exists_map (S : UserSpace T β) (hfits : addr + len < 2 ^ T.layout.wordBits) (vmFlags : BitVec 32) :
    ∃ (r : Except Errno ℕ) (S' : UserSpace T β), mmMap T.layout K S.st addr len vmFlags = .ok (r, S'.st) ∧
      (∀ a, r = .ok a → Mapped addr len (vmFlags &&& ~~~vmShare) S S') ∧ ∀ e, r = .error e → Same S S' := by
  obtain ⟨r, s', hrun, hinv, -, hpgdir, -, hpages, herr, hok⟩ := mmMap_spec S.inv addr len vmFlags
  cases r with
  | error e =>
    obtain ⟨hlist, hvmas⟩ := herr e rfl
    have hmap : ∀ x, s'.mm.mapping x = S.st.mm.mapping x := fun x => by
      rw [Mm.mapping, hlist, hvmas]
      rfl
    have hpriv : Private s'.mm := by
      rw [Private, Mm.regions, hlist, hvmas]
      exact S.priv
    refine ⟨.error e, ⟨s', hinv, hpriv, fun x hlo hhi hx => ?_⟩, hrun, by simp, fun _ _ =>
      ⟨hmap, hpgdir, hpages⟩⟩
    rw [hpages, hpgdir] at hx
    rw [hmap]
    exact S.present x hlo hhi hx
  | ok a =>
    obtain ⟨haccess, hfree, hperm, hnot, hvmas⟩ := hok a rfl
    have hunmapped : ∀ x, T.layout.InPages addr len x → S.st.mm.mapping x = none := by
      intro x hx
      rw [T.layout.inPages_iff hfits haccess] at hx
      by_contra hne
      obtain ⟨f, hf⟩ := (S.inv.mapping_ne_none S.priv).mp hne
      exact not_area_of_apart hfree hx.1 hx.2 hf
    have hpriv : Private s'.mm := private_of_map S.priv hperm hnot hvmas (share_and_not vmFlags _ rfl)
    have hmap : ∀ x, s'.mm.mapping x = if T.layout.InPages addr len x then
        some (vmFlags &&& ~~~vmShare, none) else S.st.mm.mapping x := by
      intro x
      rw [mapping_of_map S.inv S.priv hinv hpriv (fun g => area_of_map hperm hnot hvmas) fun hx =>
        hunmapped x ((T.layout.inPages_iff hfits haccess).mpr hx)]
      simp only [T.layout.inPages_iff hfits haccess]
    refine ⟨.ok a, ⟨s', hinv, hpriv, fun x hlo hhi hx => ?_⟩, hrun, fun _ _ => ⟨hunmapped, hmap, hpgdir,
      hpages⟩, by simp⟩
    rw [hpages, hpgdir] at hx
    rw [hmap]
    split_ifs
    · exact Option.some_ne_none _
    · exact S.present x hlo hhi hx

end UserSpace

/-- **Unmapping and mapping are map updates.** In every address space with private VMAs, `mm_unmap` and
`mm_map` of a range that does not wrap around return. If `mm_unmap` succeeds, the pages of the range are
unmapped and have no page table entries, and nothing else has changed. If `mm_map` succeeds, no page of the
range was mapped, they have the flags now, and nothing else has changed. A call that fails changes neither
the mapping nor the page tables. -/
theorem unmap_and_map_update (T : Port) (copy : T.Pages β → ℕ → ℕ → ℕ → ℕ → Bool → Option (Bool × T.Pages β))
    (destroy : T.Pages β → ℕ → T.Pages β) (K : Kmalloc) (S : UserSpace T β) (addr len : ℕ)
    (vmFlags : BitVec 32) (hfits : addr + len < 2 ^ T.layout.wordBits) :
    (∃ (r : Except Errno Unit) (S' : UserSpace T β),
      mmUnmap T.layout (T.pageOps copy destroy) K S.st addr len = .ok (r, S'.st) ∧
        (r = .ok () → UserSpace.Unmapped addr len S S') ∧ ∀ e, r = .error e → UserSpace.Same S S') ∧
    ∃ (r : Except Errno ℕ) (S' : UserSpace T β), mmMap T.layout K S.st addr len vmFlags = .ok (r, S'.st) ∧
      (∀ a, r = .ok a → UserSpace.Mapped addr len (vmFlags &&& ~~~vmShare) S S') ∧
        ∀ e, r = .error e → UserSpace.Same S S' :=
  ⟨S.exists_unmap _ _ _ hfits, S.exists_map hfits vmFlags⟩

/-- An address space without VMAs, on the i386. -/
def emptyUserSpace : UserSpace Port.i386 ℕ where
  st := ⟨⟨0, fun _ => ⟨0, 0⟩, fun _ _ => none⟩,
    mmCreate 0 0 (fun _ => ⟨0, 0, 0, 0, none, 0⟩) (fun _ => ⟨false, 0, 0, 0⟩)⟩
  inv := mmCreate_inv _ _ _ _
  priv := fun v hv => absurd hv (Multiset.notMem_zero v)
  present := fun _ _ _ h => absurd rfl h

/-- Two pages are mapped for a range that is not aligned. -/
theorem unmap_and_map_update_two_pages :
    ∃ a S', mmMap Layout.i386 bumpKmalloc emptyUserSpace.st 0x800010 0x1000 (vmRead ||| vmWrite) =
        .ok (.ok a, S'.st) ∧
      UserSpace.Mapped 0x800010 0x1000 (vmRead ||| vmWrite) emptyUserSpace S' := by
  obtain ⟨-, r, S', hrun, hok, -⟩ := unmap_and_map_update Port.i386 (fun p _ _ _ _ _ => some (true, p))
    (fun p _ => p) bumpKmalloc emptyUserSpace 0x800010 0x1000 (vmRead ||| vmWrite) (by decide)
  obtain ⟨a, s', hmap⟩ : ∃ a s', mmMap Layout.i386 bumpKmalloc emptyUserSpace.st 0x800010 0x1000
      (vmRead ||| vmWrite) = .ok (.ok a, s') :=
    mmMap_of_free emptyUserSpace.inv (by decide) (fun b hb => absurd hb not_mem_nil)
      (fun _ _ => Option.some_ne_none _) _
  have hboth : Except.ok (r, S'.st) = Except.ok (Except.ok a, s') := hrun.symm.trans hmap
  obtain ⟨rfl, -⟩ := Prod.mk.inj (Except.ok.inj hboth)
  exact ⟨a, S', hrun, hok a rfl⟩

end UcoreKernel.Vmm
