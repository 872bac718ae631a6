import UcoreKernel.Mm.MapUpdates

/-!
`do_brk` (`kern-ucore/process/proc.c`) and `mm_brk` (`kern-ucore/mm/vmm.c`): the end of the heap.

The heap of a process lies below `mm->brk`, which only `do_brk` moves. A growth maps a new range, for
which `mm_brk` extends the VMA below it or adds one; a shrinking unmaps a range. Both are updates of the
function of the address space, as those of `mm_map` and `mm_unmap` are.
-/

namespace UcoreKernel.Vmm

open Function

variable {P : Type} {A : Layout} {ops : PageOps P} {K : Kmalloc} {s' : St P} {mm mm' : Mm}
  {start stop x : ℕ}

/-- `find_vma_intersection`. -/
def findVmaIntersection (mm : Mm) (start stop : ℕ) : Except Stop (Option ℕ × Mm) := do
  let r ← findVma mm start
  return (r.1.filter fun vma => (r.2.vmas vma).vmStart < stop, r.2)

/-- An address space with the fields `brk_start` and `brk`. -/
structure BrkMm (P : Type) where
  st : St P
  brkStart : ℕ
  brk : ℕ

section Model

variable (A : Layout) (ops : PageOps P) (K : Kmalloc) (m : BrkMm P)

/-- `do_brk`, for a new break below the old one. -/
def brkShrink (newbrk : ℕ) : Except Stop (Except Errno Unit × BrkMm P) := do
  match ← mmUnmap A ops K m.st newbrk (m.brk - newbrk) with
  | (.error _, st) => return (.ok (), { m with st := st })
  | (.ok (), st) => return (.ok (), { m with st := st, brk := newbrk })

/-- `do_brk`, for a new break above the old one. -/
def brkGrow (newbrk : ℕ) : Except Stop (Except Errno Unit × BrkMm P) := do
  let r ← findVmaIntersection m.st.mm m.brk ((newbrk + A.pgsize) % 2 ^ A.wordBits)
  let st := { m.st with mm := r.2 }
  if r.1.isSome then return (.ok (), { m with st := st })
  else do
    match ← mmBrk A ops K st m.brk (newbrk - m.brk) with
    | (.error _, st) => return (.ok (), { m with st := st })
    | (.ok (), st) => return (.ok (), { m with st := st, brk := newbrk })

/-- `do_brk`. `request` is what `copy_from_user` reads at `brk_store`, if it can be read. -/
def doBrk (request : Option ℕ) : Except Stop (Except Errno Unit × BrkMm P) :=
  match request with
  | none => .ok (.error .inval, m)
  | some brk =>
    if brk < m.brkStart then .ok (.ok (), m)
    else do
      let newbrk := A.roundUp brk
      assert (m.brk % A.pgsize = 0)
      if newbrk = m.brk then return (.ok (), m)
      else if newbrk < m.brk then brkShrink A ops K m newbrk
      else brkGrow A ops K m newbrk

end Model

/-! ### `mm_brk` -/

/-- The areas after the rest of `mm_brk`. -/
lemma BrkGrew.area {r : Except Errno Unit} (hgrew : BrkGrew start stop mm mm' r) (hinv : MmInv A mm)
    (hpriv : Private mm) (haccess : A.UserAccess start stop) : Private mm' ∧
      (∀ e, r = .error e → ∀ x f, mm'.Area x f ↔ mm.Area x f) ∧
      (r = .ok () → ∀ x f, mm'.Area x f ↔ (start ≤ x ∧ x < stop ∧ vmRead ||| vmWrite = f) ∨ mm.Area x f) := by
  cases hgrew with
  | failed e hlist hvmas =>
    refine ⟨?_, fun _ _ x f => ?_, by simp⟩
    · rw [Private, Mm.regions, hlist, hvmas]
      exact hpriv
    · rw [Mm.Area, hlist, hvmas]
      rfl
  | grown a ha hend hflags hlist hvmas =>
    have hlow : (mm.vmas a).vmStart < start := hend ▸ hinv.spread.lt a ha
    have hold := List.perm_cons_erase ha
    refine ⟨fun v hv => ?_, by simp, fun _ x f => ?_⟩
    · obtain ⟨b, hb, rfl⟩ := mem_regionsOf.mp hv
      rw [hlist] at hb
      rw [hvmas, update_apply]
      split_ifs
      · exact hpriv.vma ha
      · exact hpriv.vma hb
    · have hrest : AreaIn mm'.vmas (mm.mmapList.erase a) x f ↔ AreaIn mm.vmas (mm.mmapList.erase a) x f :=
        areaIn_congr fun c hc => by
          rw [hvmas, update_of_ne fun hEq : c = a => List.Nodup.not_mem_erase hinv.nodup (hEq ▸ hc)]
      rw [Mm.Area, Mm.Area, hlist, AreaIn.perm hold, AreaIn.perm hold, areaIn_cons, areaIn_cons, hrest, hvmas,
        update_self, ← or_assoc]
      refine or_congr_left ?_
      have hlt := haccess.2.1
      simp only [Vma.Has, hend, hflags]
      constructor
      · rintro ⟨h1, h2, h3⟩
        obtain hx | hx := lt_or_ge x start
        · exact .inr ⟨h1, hx, h3⟩
        · exact .inl ⟨hx, h2, h3⟩
      · rintro (⟨h1, h2, h3⟩ | ⟨h1, h2, h3⟩)
        · exact ⟨hlow.le.trans h1, h2, h3⟩
        · exact ⟨h1, h2.trans hlt, h3⟩
  | added a hperm hnot hvmas =>
    have hpriv' : Private mm' := UserSpace.private_of_map hpriv hperm hnot hvmas
      (by decide : Vma.share ⟨0, 0, 0, vmRead ||| vmWrite, none, 0⟩ = false)
    exact ⟨hpriv', by simp, fun _ x f => UserSpace.area_of_map hperm hnot hvmas⟩

/-! ### Updates of an address space -/

variable {β : Type} [Zero β] [DecidableEq β] {T : Port}

/-- The mapping of the range is new and has no pages, and everything else is as before. -/
structure UserSpace.Updated (start stop : ℕ) (w : Option (BitVec 32 × Option ℕ)) (S S' : UserSpace T β) :
    Prop where
  mapping : ∀ x, S'.st.mm.mapping x = if start ≤ x ∧ x < stop then w else S.st.mm.mapping x
  pgdir : S'.st.mm.pgdir = S.st.mm.pgdir
  pte : ∀ x < T.paging.radix.span (T.paging.top + 2), T.pte S'.st.kernel.pages S'.st.mm.pgdir x =
    if start ≤ x ∧ x < stop then 0 else T.pte S.st.kernel.pages S.st.mm.pgdir x
  others : ∀ d, d ≠ S.st.mm.pgdir → S'.st.kernel.pages d = S.st.kernel.pages d

namespace UserSpace

variable {copy : T.Pages β → ℕ → ℕ → ℕ → ℕ → Bool → Option (Bool × T.Pages β)}
  {destroy : T.Pages β → ℕ → T.Pages β} {S S' S'' : UserSpace T β} {w : Option (BitVec 32 × Option ℕ)}

omit [DecidableEq β] in
/-- Nothing changes. -/
lemma Same.updated (h : Same S S') (b : ℕ) : Updated b b none S S' := by
  have hno : ∀ x, ¬(b ≤ x ∧ x < b) := fun x => by omega
  refine ⟨fun x => ?_, h.pgdir, fun x _ => ?_, fun d _ => by rw [h.pages]⟩
  · rw [if_neg (hno x), h.mapping]
  · rw [if_neg (hno x), h.pgdir, h.pages]

/-- The end of an aligned range. -/
lemma range_end_of_dvd (hle : start ≤ stop) (hstop : A.pgsize ∣ stop) :
    (start + (stop - start) + A.pgsize - 1) / A.pgsize * A.pgsize = stop := by
  obtain ⟨q, rfl⟩ := hstop
  have hpos := A.pgsize_pos
  have hsum : start + (A.pgsize * q - start) + A.pgsize - 1 = A.pgsize - 1 + A.pgsize * q := by omega
  rw [hsum, Nat.add_mul_div_left _ _ hpos, Nat.div_eq_of_lt (by omega), zero_add, mul_comm]

omit [DecidableEq β] in
/-- `mm_unmap` of an aligned range. -/
lemma Unmapped.updated (h : Unmapped start (stop - start) S S') (hle : start ≤ stop)
    (hstart : T.layout.pgsize ∣ start) (hstop : T.layout.pgsize ∣ stop) : Updated start stop none S S' := by
  have hin : ∀ x, T.layout.InPages start (stop - start) x ↔ start ≤ x ∧ x < stop := fun x => by
    rw [Layout.InPages, Layout.roundDown_of_dvd hstart, range_end_of_dvd hle hstop]
  refine ⟨fun x => ?_, h.pgdir, fun x hx => ?_, h.others⟩
  · simp only [h.mapping, hin]
  · simp only [h.pte x hx, hin]

omit [DecidableEq β] in
/-- There is no page where nothing is mapped. -/
lemma pte_eq_zero (S : UserSpace T β) (haccess : T.layout.UserAccess start stop) (hx : start ≤ x ∧ x < stop)
    (hnone : S.st.mm.mapping x = none) : T.pte S.st.kernel.pages S.st.mm.pgdir x = 0 := by
  by_contra hne
  exact S.present x (haccess.1.trans hx.1) (hx.2.trans_le haccess.2.2) hne hnone

variable (copy destroy K) in
/-- `mm_brk` of an aligned range where nothing is mapped, if it is in user memory. -/
lemma exists_brk (S : UserSpace T β) (hlt : start < stop) (hstart : T.layout.pgsize ∣ start)
    (hstop : T.layout.pgsize ∣ stop) (hword : stop < 2 ^ T.layout.wordBits)
    (hnone : T.layout.UserAccess start stop → ∀ x, start ≤ x ∧ x < stop → S.st.mm.mapping x = none) :
    ∃ (r : Except Errno Unit) (S' : UserSpace T β),
      mmBrk T.layout (T.pageOps copy destroy) K S.st start (stop - start) = .ok (r, S'.st) ∧
        (r = .ok () → T.layout.UserAccess start stop ∧
          Updated start stop (some (vmRead ||| vmWrite, none)) S S') ∧
        ∀ e, r = .error e → Updated start start none S S' := by
  have hfits : start + (stop - start) < 2 ^ T.layout.wordBits := by omega
  rw [mmBrk, Layout.roundDown_of_dvd hstart]
  by_cases haccess : T.layout.UserAccess start (T.layout.rangeEnd start (stop - start))
  swap
  · rw [if_pos haccess]
    exact ⟨_, S, rfl, by simp, fun _ _ => Same.updated ⟨fun _ => rfl, rfl, rfl⟩ start⟩
  have hend : T.layout.rangeEnd start (stop - start) = stop := by
    rw [T.layout.rangeEnd_eq hfits (by rwa [Layout.roundDown_of_dvd hstart]), range_end_of_dvd hlt.le hstop]
  rw [if_neg (not_not.mpr haccess), hend]
  rw [hend] at haccess
  have hnone := hnone haccess
  obtain ⟨r, S1, hunmap, hok, herr⟩ := exists_unmap K copy destroy S hfits
  rw [hunmap, ok_bind]
  cases r with
  | error e => exact ⟨_, S1, rfl, by simp, fun _ _ => (herr e rfl).updated start⟩
  | ok _ =>
    -- nothing was mapped, so nothing has been unmapped
    have hun := (hok rfl).updated hlt.le hstart hstop
    have hmap : ∀ x, S1.st.mm.mapping x = S.st.mm.mapping x := by
      intro x
      rw [hun.mapping]
      split_ifs with hx
      · rw [hnone x hx]
      · rfl
    have hpte : ∀ x < T.paging.radix.span (T.paging.top + 2),
        T.pte S1.st.kernel.pages S1.st.mm.pgdir x = T.pte S.st.kernel.pages S.st.mm.pgdir x := by
      intro x hspan
      rw [hun.pte x hspan]
      split_ifs with hx
      · rw [S.pte_eq_zero haccess hx (hnone x hx)]
      · rfl
    have hfree := S1.inv.free_of_area hlt fun x f hf hx =>
      (S1.inv.mapping_ne_none S1.priv).mpr ⟨f, hf⟩ ((hmap x).trans (hnone x hx))
    obtain ⟨r, s', hgrow, hinv', hpgdir, -, hpages, hgrew⟩ :=
      mmBrkGrow_spec S1.inv hstart hstop haccess hfree
    obtain ⟨hpriv', harea, harea'⟩ := hgrew.area S1.inv S1.priv haccess
    have hsame : ∀ x, T.pte s'.kernel.pages s'.mm.pgdir x = T.pte S1.st.kernel.pages S1.st.mm.pgdir x :=
      fun x => by rw [hpgdir, hpages]
    have hothers : ∀ d, d ≠ S.st.mm.pgdir → s'.kernel.pages d = S.st.kernel.pages d :=
      fun d hd => by rw [hpages, hun.others d hd]
    cases r with
    | error e =>
      have hmap' : ∀ x, s'.mm.mapping x = S.st.mm.mapping x := fun x =>
        (mapping_congr S1.inv S1.priv hinv' hpriv' (harea e rfl x)).trans (hmap x)
      have hno : ∀ x, ¬(start ≤ x ∧ x < start) := fun x => by omega
      refine ⟨_, ⟨s', hinv', hpriv', fun x hlo hhi hx => ?_⟩, hgrow, by simp, fun _ _ =>
        ⟨fun x => by rw [if_neg (hno x), hmap'], hpgdir.trans hun.pgdir,
          fun x hx => by rw [if_neg (hno x), hsame, hpte x hx], hothers⟩⟩
      rw [hmap', ← hmap]
      exact S1.present x hlo hhi (hsame x ▸ hx)
    | ok u =>
      have hmap' : ∀ x, s'.mm.mapping x =
          if start ≤ x ∧ x < stop then some (vmRead ||| vmWrite, none) else S.st.mm.mapping x := by
        intro x
        rw [← hmap]
        exact mapping_of_map S1.inv S1.priv hinv' hpriv' (harea' rfl x) fun hx => (hmap x).trans (hnone x hx)
      refine ⟨_, ⟨s', hinv', hpriv', fun x hlo hhi hx => ?_⟩, hgrow, fun _ => ⟨haccess, hmap',
        hpgdir.trans hun.pgdir, fun x hx => by rw [hsame, hun.pte x hx], hothers⟩, by simp⟩
      rw [hmap']
      split_ifs
      · exact Option.some_ne_none _
      · rw [← hmap]
        exact S1.present x hlo hhi (hsame x ▸ hx)

end UserSpace

/-! ### `do_brk` -/

/-- An address space with private VMAs and a break. `load_icode` puts the break and its lower bound at
the start of the same page. -/
structure Heap (T : Port) (β : Type) [Zero β] extends UserSpace T β where
  brkStart : ℕ
  brk : ℕ
  start_dvd : T.layout.pgsize ∣ brkStart
  brk_dvd : T.layout.pgsize ∣ brk
  start_le : brkStart ≤ brk
  brk_lt : brk < 2 ^ T.layout.wordBits

/-- What the kernel keeps of a heap. -/
def Heap.fields (H : Heap T β) : BrkMm (T.Pages β) := ⟨H.st, H.brkStart, H.brk⟩

/-- A refused request: neither the break nor the mapping changes. -/
def Heap.Refused (H H' : Heap T β) : Prop :=
  H'.brk = H.brk ∧ UserSpace.Updated H.brk H.brk none H.toUserSpace H'.toUserSpace

/-- The heap has grown to `b`. Nothing was mapped up to there, and nothing is in the page above. -/
def Heap.Grown (H H' : Heap T β) (b : ℕ) : Prop :=
  H.brk < b ∧ H'.brk = b ∧ (∀ x, H.brk ≤ x ∧ x < b → H.st.mm.mapping x = none) ∧
    UserSpace.Updated H.brk b (some (vmRead ||| vmWrite, none)) H.toUserSpace H'.toUserSpace ∧
    ∀ x, b ≤ x ∧ x < b + T.layout.pgsize → H'.st.mm.mapping x = none

/-- The heap has shrunk to `b`. -/
def Heap.Shrunk (H H' : Heap T β) (b : ℕ) : Prop :=
  b < H.brk ∧ H'.brk = b ∧ UserSpace.Updated b H.brk none H.toUserSpace H'.toUserSpace

/-- `find_vma_intersection` finds nothing only if there is nothing. -/
lemma findVmaIntersection_spec (h : MmInv A mm) (start stop : ℕ) :
    ∃ r cache, findVmaIntersection mm start stop = .ok (r, { mm with mmapCache := cache }) ∧
      MmInv A { mm with mmapCache := cache } ∧
      (r = none → mm.Free start stop) := by
  obtain ⟨cache, hfind, hinv⟩ := findVma_spec h start
  rw [findVmaIntersection, hfind]
  refine ⟨_, cache, rfl, hinv, fun hnone => h.free_of_firstAbove fun a ha => ?_⟩
  rw [ha] at hnone
  simpa using hnone

/-- A call returns, keeps `brk_start`, and either refuses or leaves a heap with the property. -/
def Heap.Gives (H : Heap T β) (x : Except Stop (Except Errno Unit × BrkMm (T.Pages β))) (Q : Heap T β → Prop) :
    Prop :=
  ∃ (r : Except Errno Unit) (H' : Heap T β), x = .ok (r, H'.fields) ∧ H'.brkStart = H.brkStart ∧
    (H.Refused H' ∨ Q H')

variable {H : Heap T β} {newbrk : ℕ} {Q : Heap T β → Prop}

omit [DecidableEq β] in
lemma Heap.gives_refused (H : Heap T β) (r : Except Errno Unit) : H.Gives (.ok (r, H.fields)) Q :=
  ⟨r, H, rfl, rfl, .inl ⟨rfl, UserSpace.Same.updated ⟨fun _ => rfl, rfl, rfl⟩ _⟩⟩

omit [DecidableEq β] in
/-- Another state of the same address space is a refusal. -/
lemma Heap.gives_of_updated {S : UserSpace T β} (r : Except Errno Unit)
    (h : UserSpace.Updated H.brk H.brk none H.toUserSpace S) :
    H.Gives (.ok (r, { H.fields with st := S.st })) Q :=
  ⟨r, ⟨S, H.brkStart, H.brk, H.start_dvd, H.brk_dvd, H.start_le, H.brk_lt⟩, rfl, rfl, .inl ⟨rfl, h⟩⟩

/-- The heap shrinks; a range that is unmapped is in user memory. -/
lemma Heap.gives_shrink (hlt : newbrk < H.brk) (hdvd : T.layout.pgsize ∣ newbrk)
    (hge : T.layout.userBase ≤ newbrk → H.brkStart ≤ newbrk) :
    H.Gives (brkShrink T.layout (T.pageOps copy destroy) K H.fields newbrk) (H.Shrunk · newbrk) := by
  have hbrk := H.brk_lt
  obtain ⟨r, S, hrun, hok, herr⟩ := H.toUserSpace.exists_unmap K copy destroy
    (show newbrk + (H.brk - newbrk) < 2 ^ T.layout.wordBits by omega)
  have hrun' : mmUnmap T.layout (T.pageOps copy destroy) K H.fields.st newbrk (H.fields.brk - newbrk) = _ := hrun
  rw [brkShrink, hrun', ok_bind]
  cases r with
  | error e => exact Heap.gives_of_updated _ ((herr e rfl).updated _)
  | ok u =>
    have hbase := (UserSpace.access_of_mmUnmap_ok hrun).1
    rw [Layout.roundDown_of_dvd hdvd] at hbase
    exact ⟨_, ⟨S, _, newbrk, H.start_dvd, hdvd, hge hbase, hlt.trans hbrk⟩, rfl, rfl,
      .inr ⟨hlt, rfl, (hok rfl).updated hlt.le hdvd H.brk_dvd⟩⟩

/-- The heap grows; the end of the range that is looked at wraps around only above user memory. -/
lemma Heap.gives_grow (htop : T.layout.userTop + T.layout.pgsize < 2 ^ T.layout.wordBits) (hgt : H.brk < newbrk)
    (hdvd : T.layout.pgsize ∣ newbrk) (hword : newbrk < 2 ^ T.layout.wordBits) :
    H.Gives (brkGrow T.layout (T.pageOps copy destroy) K H.fields newbrk) (H.Grown · newbrk) := by
  obtain ⟨r, cache, hrun, hinv, hfree⟩ := findVmaIntersection_spec H.inv H.brk
    ((newbrk + T.layout.pgsize) % 2 ^ T.layout.wordBits)
  have hrun' : findVmaIntersection H.fields.st.mm H.fields.brk _ = _ := hrun
  rw [brkGrow, hrun', ok_bind]
  let S : UserSpace T β := ⟨{ H.st with mm := { H.st.mm with mmapCache := cache } }, hinv, H.priv, H.present⟩
  have hfrom : ∀ {a b w S'}, UserSpace.Updated a b w S S' → UserSpace.Updated a b w H.toUserSpace S' :=
    fun h => { h with }
  cases r with
  | some vma =>
    have hcache : UserSpace.Same H.toUserSpace S := ⟨fun _ => rfl, rfl, rfl⟩
    exact Heap.gives_of_updated _ (hcache.updated _)
  | none =>
    have hnone : T.layout.UserAccess H.brk newbrk →
        ∀ x, H.brk ≤ x ∧ x < newbrk + T.layout.pgsize → H.st.mm.mapping x = none := by
      intro haccess x hx
      have hend := haccess.2.2
      rw [Nat.mod_eq_of_lt (by omega)] at hfree
      by_contra hne
      obtain ⟨f, hf⟩ := (H.inv.mapping_ne_none H.priv).mp hne
      exact not_area_of_apart (hfree rfl) hx.1 hx.2 hf
    obtain ⟨r, S', hgrow, hok, herr⟩ := S.exists_brk K copy destroy hgt H.brk_dvd hdvd hword
      fun haccess x hx => hnone haccess x ⟨hx.1, by omega⟩
    have hgrow' : mmBrk T.layout (T.pageOps copy destroy) K
      { H.fields.st with mm := { H.st.mm with mmapCache := cache } } H.fields.brk (newbrk - H.fields.brk) = _ := hgrow
    rw [if_neg (by simp), hgrow', ok_bind]
    cases r with
    | error e => exact Heap.gives_of_updated _ (hfrom (herr e rfl))
    | ok u =>
      obtain ⟨haccess, hS'⟩ := hok rfl
      have hup := hfrom hS'
      refine ⟨_, ⟨S', _, newbrk, H.start_dvd, hdvd, H.start_le.trans hgt.le, hword⟩, rfl, rfl,
        .inr ⟨hgt, rfl, fun x hx => hnone haccess x ⟨hx.1, by omega⟩, hup, fun x hx => ?_⟩⟩
      rw [hup.mapping, if_neg (by omega)]
      exact hnone haccess x ⟨by omega, hx.2⟩

/-- A heap without VMAs, on the i386. -/
def emptyHeap : Heap Port.i386 ℕ := ⟨emptyUserSpace, 0x800000, 0x800000, by decide, by decide, by decide, by decide⟩

/-- The result of a request in the third page. -/
def emptyHeapRun : Except Stop (Except Errno Unit × BrkMm (Port.i386.Pages ℕ)) :=
  doBrk Layout.i386 (Port.i386.pageOps (fun p _ _ _ _ _ => some (true, p)) fun p _ => p) bumpKmalloc
    emptyHeap.fields (some 0x802001)

end UcoreKernel.Vmm
