import UcoreKernel.Lib.Counting
import UcoreKernel.Lib.Guarded
import UcoreKernel.Mm.Regions
import UcoreKernel.Mm.VmmSystem

/-!
`do_shmem`, and what happens to shared memory over a sequence of calls on any number of address
spaces.

A trace keeps, beside the address spaces, the object and the offset that each address had when it was
mapped. Three things are asked of every state on the way: the shared VMAs have an object, each
address still has the object and the offset of the trace, and the reference count of each object is
the number of VMAs that point to it.
-/

namespace UcoreKernel.Vmm

open UcoreKernel.Except (Ensures)
open Function List Layout

variable {P : Type} (A : Layout) (ops : PageOps P) (K : Kmalloc)

/-! ### `do_shmem` -/

/-- `MMAP_WRITE`. -/
def mmapWrite : BitVec 32 := 0x100

/-- `MMAP_STACK`. -/
def mmapStack : BitVec 32 := 0x200

/-- The loop of `get_unmapped_area`, over the VMAs from the top down. -/
def getUnmappedAreaLoop (len : ℕ) : List Vma → ℕ → ℕ
  | [], start => if start ≥ A.userBase then start else 0
  | vma :: vmas, start =>
    if start ≥ vma.vmEnd then start
    else if start + len > vma.vmStart then
      if len ≥ vma.vmStart then 0 else getUnmappedAreaLoop len vmas (vma.vmStart - len)
    else getUnmappedAreaLoop len vmas start

/-- `get_unmapped_area`. -/
def getUnmappedArea (mm : Mm) (len : ℕ) : ℕ :=
  if len = 0 ∨ len > A.userTop then 0
  else getUnmappedAreaLoop A len (mm.mmapList.reverse.map mm.vmas) (A.userTop - len)

/-- `shmem_create`, when `kmalloc` has returned `shmem`. -/
def shmemCreate (s : St P) (shmem len : ℕ) : St P :=
  { s with kernel := { s.kernel with shmems := update s.kernel.shmems shmem ⟨len, 0⟩ } }

/-- The part of `do_shmem` behind `get_unmapped_area`; `shmem` is what `kmalloc` returns. -/
def doShmemMap (s : St P) (addr len : ℕ) (vmFlags : BitVec 32) :
    Option ℕ → Except Stop (Except Errno Unit × St P)
  | none => .ok (.error .noMem, s)
  | some shmem => do
      let r ← mmMapShmem A K (shmemCreate s shmem len) addr vmFlags (some shmem)
      match r with
      | (.ok _, s) => return (.ok (), s)
      | (.error e, s) => do
          assert ((s.kernel.shmems shmem).shmemRef = 0)
          let s ← shmemDestroy ops s shmem
          return (.error e, s)

/-- `do_shmem`, when `*addr_store` is `addr`. -/
def doShmem (s : St P) (addr len : ℕ) (mmapFlags : BitVec 32) (shmem : Option ℕ) :
    Except Stop (Except Errno Unit × St P) :=
  if len = 0 then .ok (.error .inval, s)
  else
    let start := A.roundDown addr
    let len := (A.rangeEnd addr len + 2 ^ A.wordBits - start) % 2 ^ A.wordBits
    let vmFlags := vmRead ||| (if mmapFlags &&& mmapWrite ≠ 0 then vmWrite else 0) |||
      (if mmapFlags &&& mmapStack ≠ 0 then vmStack else 0)
    let addr := if start = 0 then getUnmappedArea A s.mm len else start
    if addr = 0 then .ok (.error .noMem, s) else doShmemMap A ops K s addr len vmFlags shmem

/-- A call: one of `vmm.c`, or `do_shmem` with what `kmalloc` returns for the object. -/
inductive Call where
  | op (op : Op)
  | doShmem (mm addr len : ℕ) (mmapFlags : BitVec 32) (shmem : Option ℕ)

/-- One call. `kmalloc` does not return an object that is in use. -/
def callStep (σ : System P) : Call → Except Stop (System P)
  | .op op => step A ops K σ op
  | .doShmem a addr len mmapFlags shmem =>
    if shmem.any fun k => (σ.kernel.shmems k).shmemRef ≠ 0 then .ok σ
    else σ.on a fun s => doShmem A ops K s addr len mmapFlags shmem

/-! ### Traces -/

/-- What an address stands for: `none` if it is not mapped. -/
def Mm.view (mm : Mm) (x : ℕ) : Option (Option (ℕ × ℕ)) :=
  (mm.mmapList.find? fun a => (mm.vmas a).vmStart ≤ x ∧ x < (mm.vmas a).vmEnd).map fun a =>
    (mm.vmas a).backing A x

/-- The same, in the address space at `a`. -/
def System.view (σ : System P) (a x : ℕ) : Option (Option (ℕ × ℕ)) :=
  (σ.mms a).bind fun mm => mm.view A x

/-- The number of VMAs of the address space at `a` that point to an object. -/
def System.pointers (σ : System P) (k a : ℕ) : ℕ :=
  (σ.mms a).elim 0 fun mm => mm.mmapList.countP fun v => (mm.vmas v).shmem = some k

/-- The address spaces, with what each address stood for when it was mapped. -/
structure Traced (P : Type) where
  system : System P
  origin : ℕ → ℕ → Option (Option (ℕ × ℕ))

/-- `mm_brk` maps its range anew. -/
def Call.remaps : Call → ℕ → ℕ → Bool
  | .op (.mmBrk a addr len), c, x => c = a ∧ A.roundDown addr ≤ x ∧ x < A.rangeEnd addr len
  | _, _, _ => false

/-- One call. An address that was mapped before it and is mapped behind it keeps its origin. -/
def traceStep (τ : Traced P) (call : Call) : Except Stop (Traced P) := do
  let σ ← callStep A ops K τ.system call
  return ⟨σ, fun a x =>
    if (τ.system.view A a x).isSome ∧ (σ.view A a x).isSome ∧ !call.remaps A a x then τ.origin a x
    else σ.view A a x⟩

/-- What is asked of a state: the shared VMAs have an object, every address stands for what it stood
for when it was mapped, and the reference counts are right. -/
structure SharedOk (τ : Traced P) : Prop where
  shmem : ∀ a mm, τ.system.mms a = some mm → ∀ v ∈ mm.mmapList, (mm.vmas v).share = true →
    (mm.vmas v).shmem ≠ none
  origin : ∀ a x, τ.system.view A a x = τ.origin a x
  refs : ∀ k, (τ.system.kernel.shmems k).shmemRef = ∑ᶠ a, (τ.system.pointers k a : ℤ)

/-- The range is strictly inside a shared VMA. -/
def SplitsShared (mm : Mm) (start stop : ℕ) : Prop :=
  ∃ v ∈ mm.mmapList, (mm.vmas v).share = true ∧ (mm.vmas v).vmStart < start ∧ stop < (mm.vmas v).vmEnd

/-- `mm_unmap` does not succeed on a range strictly inside a shared VMA. -/
def SafeUnmap (s : St P) (addr len : ℕ) : Prop :=
  SplitsShared s.mm (A.roundDown addr) (A.rangeEnd addr len) →
    ∀ s', mmUnmap A ops K s addr len ≠ .ok (.ok (), s')

instance SplitsShared.decidable (mm : Mm) (start stop : ℕ) : Decidable (SplitsShared mm start stop) :=
  inferInstanceAs (Decidable (∃ v ∈ mm.mmapList, _))

instance SafeUnmap.decidable (s : St P) (addr len : ℕ) : Decidable (SafeUnmap A ops K s addr len) :=
  if hsplit : SplitsShared s.mm (A.roundDown addr) (A.rangeEnd addr len) then
    match h : mmUnmap A ops K s addr len with
    | .ok (.ok (), s') => isFalse fun hsafe => hsafe hsplit s' h
    | .ok (.error _, _) => isTrue fun _ _ hs' => (nomatch h.symm.trans hs')
    | .error _ => isTrue fun _ _ hs' => (nomatch h.symm.trans hs')
  else isTrue fun h => absurd h hsplit

/-- The calls of `mm_unmap`, alone or from `mm_brk`, are safe. -/
def Safe (τ : Traced P) : Call → Prop
  | .op (.mmUnmap a addr len) => ∀ mm, τ.system.mms a = some mm →
      SafeUnmap A ops K ⟨τ.system.kernel, mm⟩ addr len
  | .op (.mmBrk a addr len) => ∀ mm, τ.system.mms a = some mm →
      A.UserAccess (A.roundDown addr) (A.rangeEnd addr len) →
      SafeUnmap A ops K ⟨τ.system.kernel, mm⟩ (A.roundDown addr) (A.rangeEnd addr len - A.roundDown addr)
  | _ => True

instance Safe.decidable (τ : Traced P) (call : Call) : Decidable (Safe A ops K τ call) :=
  match call with
  | .op (.mmUnmap a addr len) => inferInstanceAs (Decidable (∀ mm ∈ τ.system.mms a,
      SafeUnmap A ops K ⟨τ.system.kernel, mm⟩ addr len))
  | .op (.mmBrk a addr len) => inferInstanceAs (Decidable (∀ mm ∈ τ.system.mms a,
      A.UserAccess (A.roundDown addr) (A.rangeEnd addr len) →
      SafeUnmap A ops K ⟨τ.system.kernel, mm⟩ (A.roundDown addr) (A.rangeEnd addr len - A.roundDown addr)))
  | .op (.mmCreate ..) => isTrue trivial
  | .op (.mmMap ..) => isTrue trivial
  | .op (.mmMapShmem ..) => isTrue trivial
  | .op (.dupMmap ..) => isTrue trivial
  | .doShmem .. => isTrue trivial

variable {A ops K} {mm : Mm} {s s' : St P} {τ : Traced P} {σ : System P} {call : Call}
  {a x k addr len start stop : ℕ} {b : Option (ℕ × ℕ)}

/-! ### What a call does on its address space -/

lemma Mm.view_eq_some_iff (h : MmInv A mm) : mm.view A x = some b ↔ Sees A mm.regions x b := by
  rw [Mm.view, Option.map_eq_some_iff]
  constructor
  · rintro ⟨a, ha, rfl⟩
    have hx : (mm.vmas a).vmStart ≤ x ∧ x < (mm.vmas a).vmEnd := by simpa using find?_some ha
    exact ⟨(mm.vmas a).region, mem_regionsOf.mpr ⟨a, mem_of_find?_eq_some ha, rfl⟩, hx, rfl⟩
  · rintro ⟨v, hv, hx, rfl⟩
    obtain ⟨a, ha, rfl⟩ := mem_regionsOf.mp hv
    refine ⟨a, ?_, rfl⟩
    -- no other VMA has the address
    cases hfind : mm.mmapList.find? fun c => (mm.vmas c).vmStart ≤ x ∧ x < (mm.vmas c).vmEnd with
    | none =>
      have hx' : (mm.vmas a).vmStart ≤ x ∧ x < (mm.vmas a).vmEnd := hx
      grind
    | some c =>
      have hc : (mm.vmas c).vmStart ≤ x ∧ x < (mm.vmas c).vmEnd := by
        simpa using find?_some hfind
      have hfirst := h.spread.firstAbove_eq (mem_of_find?_eq_some hfind) hc.1 hc.2
      exact hfirst.symm.trans (h.spread.firstAbove_eq ha hx.1 hx.2)

lemma countP_eq_pointers (mm : Mm) (k : ℕ) :
    (mm.mmapList.countP fun v => (mm.vmas v).shmem = some k) = pointers mm.regions k := by
  rw [pointers, Mm.regions, regionsOf, Multiset.countP_map, ← Multiset.countP_eq_card_filter, Multiset.coe_countP]
  rfl

/-- What a call must do on its address space, apart from the addresses it maps anew. -/
structure Kept (A : Layout) (anew : ℕ → Prop) (s s' : St P) : Prop where
  inv : MmInv A s'.mm
  backed : Backed s'.mm.regions
  drift : ∀ k, s'.drift k = s.drift k
  sees : ∀ x b c, ¬anew x → Sees A s'.mm.regions x b → Sees A s.mm.regions x c →
    Sees A s.mm.regions x b

variable {anew : ℕ → Prop}

section

variable (hinv : MmInv A s'.mm) (hback : Backed s.mm.regions)
include hinv hback

/-- A call that changes neither the regions nor the objects. -/
lemma kept_of_eq (hregions : s'.mm.regions = s.mm.regions)
    (hrefs : ∀ k, (s'.kernel.shmems k).shmemRef = (s.kernel.shmems k).shmemRef) : Kept A anew s s' where
  inv := hinv
  backed := hregions ▸ hback
  drift := fun k => by rw [St.drift, St.drift, hregions, hrefs]
  sees := fun x b _ _ hx _ => hregions ▸ hx

/-- A call that adds a region where there was none. -/
lemma kept_of_cons {v : Vma} (hregions : s'.mm.regions = v ::ₘ s.mm.regions) (hv : v.Backed)
    (hfree : ∀ w ∈ s.mm.regions, w.ApartFrom v.vmStart v.vmEnd) (hrefs : ∀ k, (s'.kernel.shmems k).shmemRef =
      (s.kernel.shmems k).shmemRef + pointers {v} k) : Kept A anew s s' where
  inv := hinv
  backed := by
    rw [hregions, backed_cons]
    exact ⟨hv, hback⟩
  drift := fun k => by grind [St.drift, pointers_cons]
  sees := by
    rintro x b c - hx ⟨w, hw, ⟨h1, h2⟩, -⟩
    rw [hregions, sees_cons] at hx
    refine hx.resolve_left fun hin => ?_
    obtain ⟨⟨h3, h4⟩, -⟩ := hin
    obtain h | h := hfree w hw <;> omega

end

lemma share_and_not (f : BitVec 32) (v : Vma) (h : v.vmFlags = f &&& ~~~vmShare) :
    v.share = false := by grind [Vma.share]

lemma share_or (f : BitVec 32) (v : Vma) (h : v.vmFlags = f ||| vmShare) : v.share = true := by
  have hself : (f ||| vmShare) &&& vmShare = vmShare := by grind
  rw [Vma.share, h, hself]
  decide

/-- A call that maps or unmaps leaves the shared memory as it is. -/
abbrev Keeps {α : Type} (A : Layout) (s : St P) (x : Except Stop (α × St P)) : Prop :=
  Ensures (fun e => e = .pages) x fun r => Kept A (fun _ => False) s r.2

section

variable (hinv : MmInv A s.mm) (hback : Backed s.mm.regions)
include hinv hback

lemma mmMap_kept (addr len : ℕ) (vmFlags : BitVec 32) : Keeps A s (mmMap A K s addr len vmFlags) := by
  refine Ensures.of_ok ?_
  obtain ⟨r, s', hrun, hinv', hsh, hcases⟩ := mmMap_regions hinv addr len vmFlags
  refine ⟨_, hrun, ?_⟩
  obtain ⟨-, hregions⟩ | ⟨-, hfree, hregions⟩ := hcases
  · exact kept_of_eq hinv' hback hregions fun k => by rw [hsh]
  · grind [kept_of_cons, Vma.backed_private, share_and_not, pointers_singleton_none]

lemma mmMapShmem_kept (addr : ℕ) (vmFlags : BitVec 32) (shmem : Option ℕ) :
    Ensures (· = .pages) (mmMapShmem A K s addr vmFlags shmem) fun r =>
      Kept A (fun _ => False) s r.2 ∧ ((∃ e, r.1 = .error e) → r.2.kernel.shmems = s.kernel.shmems) := by
  refine Ensures.of_ok ?_
  obtain ⟨r, s', hrun, hinv', hcases⟩ := mmMapShmem_spec hinv addr vmFlags shmem
  refine ⟨_, hrun, ?_⟩
  obtain ⟨-, hregions, hsh⟩ | ⟨k, start, stop, rfl, ⟨c, rfl⟩, hfree, hregions, hsh⟩ := hcases
  · grind [kept_of_eq]
  · refine ⟨kept_of_cons hinv' hback hregions ?_ hfree fun j => ?_, fun ⟨e, he⟩ => (nomatch he)⟩
    · exact iff_of_true (share_or _ _ rfl) (Option.some_ne_none k)
    · rw [hsh]
      obtain rfl | hjk := eq_or_ne j k
      · simp [shmemRefAdd, pointers, ← Multiset.cons_zero]
      · simp [shmemRefAdd, update_of_ne hjk, pointers, ← Multiset.cons_zero, Ne.symm hjk]

variable {shmem : Option ℕ}

/-- The part of `do_shmem` behind `get_unmapped_area`, with an object that is not in use. -/
lemma doShmemMap_kept (addr len : ℕ) (vmFlags : BitVec 32)
    (hnew : ∀ k, shmem = some k → (s.kernel.shmems k).shmemRef = 0) :
    Keeps A s (doShmemMap A ops K s addr len vmFlags shmem) := by
  cases shmem with
  | none => exact kept_of_eq hinv hback rfl fun _ => rfl
  | some k =>
    have hk := hnew k rfl
    -- the new object has no references, as the old one at its place
    have hrefs : ∀ j, ((shmemCreate s k len).kernel.shmems j).shmemRef =
        (s.kernel.shmems j).shmemRef := by
      intro j
      obtain rfl | hjk := eq_or_ne j k
      · simp [shmemCreate, hk]
      · simp [shmemCreate, update_of_ne hjk]
    rw [doShmemMap]
    refine (mmMapShmem_kept (s := shmemCreate s k len) hinv hback addr vmFlags (some k)).bind fun r ⟨hkept, herr⟩ => ?_
    have hkept' : Kept A (fun _ => False) s r.2 :=
      ⟨hkept.inv, hkept.backed, fun j => (hkept.drift j).trans (by rw [St.drift, hrefs]; rfl), hkept.sees⟩
    obtain ⟨e | c, s'⟩ := r
    · have hsh : s'.kernel.shmems = (shmemCreate s k len).kernel.shmems := herr ⟨e, rfl⟩
      have hzero : (s'.kernel.shmems k).shmemRef = 0 := by rw [hsh, hrefs, hk]
      simp only [assert, if_pos hzero, ok_bind, shmemDestroy]
      cases ops.shmemDestroy s'.kernel.pages k with
      | none => rfl
      | some p => exact { hkept' with }
    · exact hkept'

/-- `do_shmem` with an object that is not in use. -/
lemma doShmem_kept (addr len : ℕ) (mmapFlags : BitVec 32)
    (hnew : ∀ k, shmem = some k → (s.kernel.shmems k).shmemRef = 0) :
    Keeps A s (doShmem A ops K s addr len mmapFlags shmem) := by
  have hsame : Kept A (fun _ => False) s s := kept_of_eq hinv hback rfl fun _ => rfl
  rw [doShmem]
  by_cases hlen : len = 0
  · rw [if_pos hlen]
    exact hsame
  rw [if_neg hlen]
  extract_lets start len' vmFlags addr'
  by_cases haddr : addr' = 0
  · rw [if_pos haddr]
    exact hsame
  · grind [doShmemMap_kept]

end

/-- What a safe call of `mm_unmap` that succeeds leaves. -/
lemma UnmapRegions.sees_iff (hback : Backed s.mm.regions) (hsafe : SafeUnmap A ops K s addr len)
    (hrun : mmUnmap A ops K s addr len = .ok (.ok (), s'))
    (h : UnmapRegions A (A.roundDown addr) (A.rangeEnd addr len) s (.ok (), s')) :
    Backed s'.mm.regions ∧ (∀ k, s'.drift k = s.drift k) ∧ ∀ x b, Sees A s'.mm.regions x b ↔
      Sees A s.mm.regions x b ∧ ¬(A.roundDown addr ≤ x ∧ x < A.rangeEnd addr len) := by
  obtain hcut | ⟨v, rest, hsplit⟩ := h
  · exact ⟨hcut.backed hback, hcut.drift, fun x b => hcut.sees_iff hback⟩
  · have hshare : v.share = false := by
      by_contra hne
      have hmem : v ∈ s.mm.regions := by
        rw [hsplit.old]
        exact Multiset.mem_cons_self v rest
      obtain ⟨c, hc, rfl⟩ := mem_regionsOf.mp hmem
      refine hsafe ⟨c, hc, ?_, hsplit.below, hsplit.above⟩ s' hrun
      exact Bool.eq_true_of_not_eq_false hne
    exact ⟨hsplit.backed hback hshare, hsplit.drift, fun x b => hsplit.sees_iff hback hshare⟩

section

variable (hinv : MmInv A s.mm) (hback : Backed s.mm.regions)
include hinv hback

/-- `mm_unmap`. -/
lemma mmUnmap_kept (addr len : ℕ)
    (hsafe : SafeUnmap A ops K s addr len) : Keeps A s (mmUnmap A ops K s addr len) := by
  refine ((mmUnmap_spec hinv addr len).tolerate fun _ h => (h.2 hback).1).mono_eq fun r hrun ⟨hdone, h⟩ => ?_
  have hregions := h hback
  obtain ⟨e | ⟨⟩, s'⟩ := r
  · exact kept_of_eq hdone.1 hback hregions.1 fun k => by rw [hregions.2]
  · obtain ⟨hback', hdrift, hsees⟩ := UnmapRegions.sees_iff hback hsafe hrun hregions
    exact ⟨hdone.inv, hback', hdrift, fun x b c _ hx _ => ((hsees x b).mp hx).1⟩

/-- `mm_brk`, which maps its range anew. -/
lemma mmBrk_kept (addr len : ℕ) (hsafe : A.UserAccess (A.roundDown addr) (A.rangeEnd addr len) →
      SafeUnmap A ops K s (A.roundDown addr) (A.rangeEnd addr len - A.roundDown addr)) :
    Ensures (· = .pages) (mmBrk A ops K s addr len) fun r =>
      Kept A (fun x => A.roundDown addr ≤ x ∧ x < A.rangeEnd addr len) s r.2 := by
  have hdown := A.dvd_roundDown addr
  have hup := A.dvd_rangeEnd addr len
  rw [mmBrk]
  generalize A.roundDown addr = start at *
  generalize A.rangeEnd addr len = stop at *
  split_ifs with haccess
  swap
  · exact kept_of_eq hinv hback rfl fun _ => rfl
  refine ((mmUnmap_spec hinv start (stop - start)).tolerate fun _ h => (h.2 hback).1).bind_eq
    fun r hrun hr => ?_
  obtain ⟨hdone, h⟩ := hr
  have hregions := h hback
  obtain ⟨e | ⟨⟩, s1⟩ := r
  · exact kept_of_eq hdone.1 hback hregions.1 fun k => by rw [hregions.2]
  · obtain ⟨hback1, hdrift1, hsees1⟩ := UnmapRegions.sees_iff hback (hsafe haccess) hrun hregions
    rw [roundDown_of_dvd hdown, rangeEnd_of_access hup haccess] at hsees1 hdone
    have hfree := hdone.inv.free_of_area haccess.2.1 fun x f hx => ((hdone.area x f).mp hx).2
    obtain ⟨r, s', hgrow, hinv', -, hsh, -, hgrew⟩ := mmBrkGrow_spec hdone.inv hdown hup haccess hfree
    have hpost : GrowPost A start stop s1 s' := hgrew.growPost hdone.inv hsh
    refine Ensures.of_ok ⟨_, hgrow, hinv', hpost.backed hback1,
      fun k => (hpost.drift k).trans (hdrift1 k), fun x b c hout hx _ => ?_⟩
    obtain hx | hx := hpost.sees x b hx
    · exact ((hsees1 x b).mp hx).1
    · exact absurd hx hout

end

/-- `dup_mmap` into an address space without VMAs. -/
lemma dupMmap_kept {old : Mm} (hinv : MmInv A s.mm) (hnew : s.mm.mmapList = [])
    (hfrom : MmInv A old) (hold : Backed old.regions) : Keeps A s (dupMmap A ops K s old) := by
  refine ((dupMmap_regions hinv hnew hfrom hold).and (dupMmap_ensures hinv hnew hfrom)).mono
    fun r ⟨⟨hback, hdrift⟩, hpost⟩ => ⟨hpost.inv, hback, hdrift, ?_⟩
  rintro x b c - - ⟨v, hv, -⟩
  rw [Mm.regions, hnew] at hv
  exact absurd hv (by simp [regionsOf])

/-! ### The address spaces together -/

/-- What holds of a trace as long as the calls are safe. -/
structure TraceInv (A : Layout) (τ : Traced P) : Prop where
  inv : SysInv A τ.system
  backed : ∀ a mm, τ.system.mms a = some mm → Backed mm.regions
  origin : ∀ a x, τ.system.view A a x = τ.origin a x
  refs : ∀ k, (τ.system.kernel.shmems k).shmemRef = ∑ᶠ a, (τ.system.pointers k a : ℤ)
  finite : {a | τ.system.mms a ≠ none}.Finite

lemma TraceInv.ok (h : TraceInv A τ) : SharedOk A τ where
  shmem := fun a mm hmm v hv hshare => by
    have hregion : (mm.vmas v).region.Backed :=
      h.backed a mm hmm _ (mem_regionsOf.mpr ⟨v, hv, rfl⟩)
    exact hregion.mp hshare
  origin := h.origin
  refs := h.refs

/-- The regions of the address space at `a`, none if there is no address space. -/
def System.regions (σ : System P) (a : ℕ) : Multiset Vma := (σ.mms a).elim 0 Mm.regions

lemma System.pointers_eq (σ : System P) (k a : ℕ) : σ.pointers k a = Vmm.pointers (σ.regions a) k := by
  rw [System.pointers, System.regions]
  cases σ.mms a with
  | none => simp [Vmm.pointers]
  | some mm => exact countP_eq_pointers mm k

lemma System.view_eq_some_iff (h : SysInv A σ) : σ.view A a x = some b ↔ Sees A (σ.regions a) x b := by
  rw [System.view, System.regions]
  cases hmm : σ.mms a with
  | none => simp [Sees]
  | some mm => exact Mm.view_eq_some_iff (h a mm hmm)

/-- The trace after a call. -/
def Traced.after (A : Layout) (τ : Traced P) (call : Call) (σ : System P) : Traced P :=
  ⟨σ, fun a x =>
    if (τ.system.view A a x).isSome ∧ (σ.view A a x).isSome ∧ !call.remaps A a x then τ.origin a x
    else σ.view A a x⟩

lemma traceStep_eq : traceStep A ops K τ call =
    callStep A ops K τ.system call >>= fun σ => .ok (τ.after A call σ) := rfl

/-- A call that changes nothing. -/
lemma TraceInv.same (h : TraceInv A τ) (call : Call) : TraceInv A (τ.after A call τ.system) where
  __ := h
  origin := fun a x => by
    show _ = if _ then _ else _
    split_ifs
    · exact h.origin a x
    · rfl

/-- A call that changes one address space, or makes a new one. -/
lemma TraceInv.update (h : TraceInv A τ) (call : Call) (a : ℕ) (kernel : Kernel P)
    (hinv : MmInv A mm) (hback : Backed mm.regions)
    (hdrift : ∀ k, (kernel.shmems k).shmemRef - pointers mm.regions k =
      (τ.system.kernel.shmems k).shmemRef - pointers (τ.system.regions a) k)
    (hsees : ∀ x b c, call.remaps A a x = false → Sees A mm.regions x b →
      Sees A (τ.system.regions a) x c → Sees A (τ.system.regions a) x b) :
    TraceInv A (τ.after A call ⟨kernel, Function.update τ.system.mms a (some mm)⟩) := by
  have hmms : ∀ {c mm'}, Function.update τ.system.mms a (some mm) c = some mm' →
      (c = a ∧ mm' = mm) ∨ (c ≠ a ∧ τ.system.mms c = some mm') := by
    intro c mm' hc
    by_cases hca : c = a
    · grind
    · grind
  set σ : System P := ⟨kernel, Function.update τ.system.mms a (some mm)⟩ with hσ
  have hsys : SysInv A σ := by
    intro c mm' hc
    obtain ⟨-, rfl⟩ | ⟨-, hc⟩ := hmms hc
    · exact hinv
    · exact h.inv c mm' hc
  have hself : σ.regions a = mm.regions := by simp [hσ, System.regions]
  have hother : ∀ c, c ≠ a → σ.regions c = τ.system.regions c := fun c hc => by
    simp [hσ, System.regions, update_of_ne hc]
  constructor
  case inv => exact hsys
  case backed =>
    intro c mm' hc
    obtain ⟨-, rfl⟩ | ⟨-, hc⟩ := hmms hc
    · exact hback
    · exact h.backed c mm' hc
  case origin =>
    intro c x
    show _ = if _ then _ else _
    split_ifs with hboth
    · obtain ⟨hold, hnew, hmaps⟩ := hboth
      obtain ⟨b, hb⟩ := Option.isSome_iff_exists.mp hnew
      obtain ⟨b', hb'⟩ := Option.isSome_iff_exists.mp hold
      rw [← h.origin c x]
      refine hb.trans ((System.view_eq_some_iff h.inv).mpr ?_).symm
      rw [System.view_eq_some_iff hsys] at hb
      rw [System.view_eq_some_iff h.inv] at hb'
      by_cases hca : c = a
      · grind
      · rwa [hother c hca] at hb
    · rfl
  case refs =>
    intro k
    have hfin : (support fun c => (τ.system.pointers k c : ℤ)).Finite := by
      refine h.finite.subset fun c hc hnone => hc ?_
      simp [System.pointers, hnone]
    have hsum := Counting.finsum_add_of_eq_of_ne hfin (g := fun c => (σ.pointers k c : ℤ))
      fun c hc => by rw [System.pointers_eq, System.pointers_eq, hother c hc]
    have hrefs := h.refs k
    have hk := hdrift k
    rw [System.pointers_eq τ.system k a, System.pointers_eq _ k a, hself] at hsum
    show (kernel.shmems k).shmemRef = ∑ᶠ c, (σ.pointers k c : ℤ)
    linarith
  case finite =>
    refine (h.finite.insert a).subset fun c hc => ?_
    by_cases hca : c = a
    · exact .inl hca
    · refine .inr ?_
      simpa [hσ, Traced.after, update_of_ne hca] using hc

/-- A call on one address space. -/
lemma TraceInv.on {α : Type} {f : St P → Except Stop (α × St P)} (h : TraceInv A τ) (call : Call) (a : ℕ)
    (hf : ∀ mm, τ.system.mms a = some mm → Ensures (· = .pages) (f ⟨τ.system.kernel, mm⟩) fun r =>
        Kept A (call.remaps A a · = true) ⟨τ.system.kernel, mm⟩ r.2) :
    Ensures (· = .pages) (τ.system.on a f) fun σ => TraceInv A (τ.after A call σ) := by
  rw [System.on]
  cases ha : τ.system.mms a with
  | none => exact h.same call
  | some mm =>
    have hregions : τ.system.regions a = mm.regions := by simp [System.regions, ha]
    refine (hf mm ha).bind fun r hr => ?_
    refine h.update call a r.2.kernel hr.inv hr.backed (fun k => ?_) fun x b c hmaps hb hc => ?_
    · rw [hregions]
      exact hr.drift k
    · rw [hregions] at hc ⊢
      exact hr.sees x b c (by simp [hmaps]) hb hc

lemma Kept.mono {anew' : ℕ → Prop} (h : Kept A anew s s') (himp : ∀ x, anew x → anew' x) : Kept A anew' s s' :=
  ⟨h.inv, h.backed, h.drift, fun x b c hx => h.sees x b c (mt (himp x) hx)⟩

/-- A safe call. -/
lemma callStep_ensures (h : TraceInv A τ) (call : Call) (hsafe : Safe A ops K τ call) :
    Ensures (· = .pages) (callStep A ops K τ.system call) fun σ => TraceInv A (τ.after A call σ) := by
  cases call with
  | doShmem a addr len mmapFlags shmem =>
    rw [callStep]
    split_ifs with huse
    · exact h.same _
    · refine h.on _ a fun mm hmm => ?_
      refine (doShmem_kept (h.inv a mm hmm) (h.backed a mm hmm) addr len mmapFlags fun k hk => ?_).mono
        fun r hr => hr.mono fun _ hf => hf.elim
      simpa [hk] using huse
  | op op =>
    rw [callStep]
    cases op with
    | mmCreate a pgdir vmas links =>
      rw [step]
      cases ha : τ.system.mms a with
      | some mm => exact h.same _
      | none =>
        have hregions : τ.system.regions a = 0 := by simp [System.regions, ha]
        refine h.update _ a τ.system.kernel (mmCreate_inv a pgdir vmas links)
          (fun v hv => absurd hv (Multiset.notMem_zero v)) (fun k => ?_) fun x b c _ hb _ => ?_
        · rw [hregions]
          rfl
        · obtain ⟨v, hv, -⟩ := hb
          exact absurd hv (Multiset.notMem_zero v)
    | mmMap a addr len vmFlags =>
      rw [step]
      refine h.on _ a fun mm hmm => ?_
      exact (mmMap_kept (h.inv a mm hmm) (h.backed a mm hmm) addr len vmFlags).mono
        fun r hr => hr.mono fun _ hf => hf.elim
    | mmMapShmem a addr vmFlags shmem =>
      rw [step]
      refine h.on _ a fun mm hmm => ?_
      exact (mmMapShmem_kept (h.inv a mm hmm) (h.backed a mm hmm) addr vmFlags shmem).mono
        fun r hr => hr.1.mono fun _ hf => hf.elim
    | mmUnmap a addr len =>
      rw [step]
      refine h.on _ a fun mm hmm => ?_
      exact (mmUnmap_kept (h.inv a mm hmm) (h.backed a mm hmm) addr len (hsafe mm hmm)).mono
        fun r hr => hr.mono fun _ hf => hf.elim
    | mmBrk a addr len =>
      rw [step]
      refine h.on _ a fun mm hmm => ?_
      refine (mmBrk_kept (h.inv a mm hmm) (h.backed a mm hmm) addr len (hsafe mm hmm)).mono
        fun r hr => hr.mono fun x hx => ?_
      simp [Call.remaps, hx]
    | dupMmap target source =>
      rw [step]
      cases hs : τ.system.mms source with
      | none => exact h.same _
      | some old =>
        refine h.on _ target fun mm hmm => ?_
        split_ifs with hnew
        · exact (dupMmap_kept (h.inv target mm hmm) hnew
            (h.inv source old hs) (h.backed source old hs)).mono
            fun r hr => hr.mono fun _ hf => hf.elim
        · exact kept_of_eq (h.inv target mm hmm) (h.backed target mm hmm) rfl fun _ => rfl

/-- A shared VMA without an object is not allowed. -/
lemma not_ok_of_lost (a : ℕ) (mm : Mm) {v : Vma} (hmm : τ.system.mms a = some mm) (hv : v ∈ mm.regions)
    (hshare : v.share = true) (hnone : v.shmem = none) : ¬SharedOk A τ := by
  obtain ⟨c, hc, rfl⟩ := mem_regionsOf.mp hv
  exact fun h => h.shmem a mm hmm c hc hshare hnone

/-- A call of `mm_unmap` that succeeds inside a shared VMA makes a shared VMA without an object. -/
lemma lost_of_splitsShared (hinv : MmInv A s.mm) (hback : Backed s.mm.regions)
    (hsplits : SplitsShared s.mm (A.roundDown addr) (A.rangeEnd addr len))
    (hrun : mmUnmap A ops K s addr len = .ok (.ok (), s')) :
    ∃ v ∈ s'.mm.regions, v.share = true ∧ v.shmem = none := by
  have hregions : Ensures _ (mmUnmap A ops K s addr len) _ :=
    mmUnmap_regions hinv hback addr len
  rw [hrun] at hregions
  obtain ⟨c, hc, hshare, hlo, hhi⟩ := hsplits
  have hmem : (s.mm.vmas c).region ∈ s.mm.regions := mem_regionsOf.mpr ⟨c, hc, rfl⟩
  obtain hcut | ⟨v, rest, hsplit⟩ := hregions
  · exact absurd ⟨hlo, hhi⟩ (hcut.oneSide _ hmem)
  · -- the region that was split is the shared one
    refine hsplit.lost ?_
    rw [hsplit.old, Multiset.mem_cons] at hmem
    obtain heq | hrest := hmem
    · rw [← heq]
      exact hshare
    · have hlt := hsplit.range
      obtain h | h := hsplit.apart _ hrest
      · have h' : (s.mm.vmas c).vmEnd ≤ A.roundDown addr := h
        omega
      · have h' : A.rangeEnd addr len ≤ (s.mm.vmas c).vmStart := h
        omega

lemma not_safeUnmap_iff : ¬SafeUnmap A ops K s addr len ↔
    SplitsShared s.mm (A.roundDown addr) (A.rangeEnd addr len) ∧
      ∃ s', mmUnmap A ops K s addr len = .ok (.ok (), s') := by
  simp [SafeUnmap]

/-- A call that is not safe returns, and leaves a state that is not in order. -/
lemma traceStep_unsafe (h : TraceInv A τ) (call : Call) (hbreaks : ¬Safe A ops K τ call) :
    Ensures (· ≠ .pages) (traceStep A ops K τ call) fun τ' => ¬SharedOk A τ' := by
  cases call with
  | doShmem a addr len mmapFlags shmem => exact absurd trivial hbreaks
  | op op =>
    cases op with
    | mmUnmap a addr len =>
      rw [Safe] at hbreaks
      push Not at hbreaks
      obtain ⟨mm, hmm, hsplit⟩ := hbreaks
      obtain ⟨hsplits, s', hrun⟩ := not_safeUnmap_iff.mp hsplit
      obtain ⟨v, hv, hshare, hnone⟩ :=
        lost_of_splitsShared (h.inv a mm hmm) (h.backed a mm hmm) hsplits hrun
      rw [traceStep_eq, callStep, step, System.on, hmm]
      dsimp only
      rw [hrun]
      exact not_ok_of_lost a s'.mm (by simp [Traced.after]) hv hshare hnone
    | mmBrk a addr len =>
      rw [Safe] at hbreaks
      push Not at hbreaks
      obtain ⟨mm, hmm, haccess, hsplit⟩ := hbreaks
      obtain ⟨hsplits, s1, hrun⟩ := not_safeUnmap_iff.mp hsplit
      obtain ⟨v, hv, hshare, hnone⟩ :=
        lost_of_splitsShared (h.inv a mm hmm) (h.backed a mm hmm) hsplits hrun
      have hdone : Ensures _ (mmUnmap A ops K ⟨τ.system.kernel, mm⟩ _ _) _ :=
        mmUnmap_ensures (h.inv a mm hmm) (A.roundDown addr) (A.rangeEnd addr len - A.roundDown addr)
      rw [hrun, roundDown_of_dvd (A.dvd_roundDown addr), rangeEnd_of_access (A.dvd_rangeEnd addr len) haccess] at hdone
      obtain ⟨r, s', hgrow, -, -, hsh, -, hgrew⟩ := mmBrkGrow_spec hdone.inv (A.dvd_roundDown addr)
        (A.dvd_rangeEnd addr len) haccess
        (hdone.inv.free_of_area haccess.2.1 fun x f hx => ((hdone.area x f).mp hx).2)
      rw [traceStep_eq, callStep, step, System.on, hmm]
      dsimp only
      rw [mmBrk, if_neg (not_not.mpr haccess), hrun]
      dsimp only [ok_bind]
      rw [hgrow]
      exact not_ok_of_lost a s'.mm (by simp [Traced.after])
        ((hgrew.growPost hdone.inv hsh).shared v hv hshare) hshare hnone
    | mmCreate | mmMap | mmMapShmem | dupMmap => exact absurd trivial hbreaks

/-! ### The result -/

/-- Nothing is mapped, and the objects have no references. -/
def Traced.init (kernel : Kernel P) : Traced P := ⟨⟨kernel, fun _ => none⟩, fun _ _ => none⟩

/-- **Shared VMAs.**  For every port, every behaviour of the page tables and every pattern of failing
allocations: in every state of a sequence of calls, with any arguments, on any number of address
spaces, the shared VMAs have an object, each address that is still mapped stands for the object and
the offset it stood for when it was mapped, and each object has as many references as VMAs that point
to it, and no call fails an assertion or follows a `NULL` pointer; exactly if no call of `mm_unmap`
succeeds on a range strictly inside a shared VMA. -/
theorem shared_vmas_iff (A : Layout) (ops : PageOps P) (K : Kmalloc) (kernel : Kernel P)
    (hkernel : ∀ k, (kernel.shmems k).shmemRef = 0) (calls : List Call) :
    Guarded.CorrectUpTo (traceStep A ops K) (SharedOk A) (fun e => e = .pages) (Traced.init kernel) calls ↔
      Guarded.AllSafe (traceStep A ops K) (Safe A ops K) (Traced.init kernel) calls := by
  refine Guarded.correctUpTo_iff_allSafe (TraceInv A) (fun τ h => h.ok) (fun τ call h hsafe => ?_)
    (fun τ call h hbreaks => traceStep_unsafe h call hbreaks) ?_ calls
  · rw [traceStep_eq]
    exact (callStep_ensures h call hsafe).bind fun σ hσ => hσ
  · exact
      { inv := nofun
        backed := nofun
        origin := fun _ _ => rfl
        refs := fun k => by
          have hzero : ∀ a, ((Traced.init kernel).system.pointers k a : ℤ) = 0 := fun a => rfl
          rw [finsum_congr hzero, finsum_zero]
          exact hkernel k
        finite := by simp [Traced.init] }

/-- The page tables never stop the kernel. -/
def quietPages : PageOps Unit :=
  ⟨fun p _ _ _ => some p, fun p _ _ _ _ _ => some (true, p), fun p _ => some p⟩

/-- Two address spaces; in the first, four pages of shared memory at `0x800000`. -/
def sharedCalls : List Call :=
  [.op (.mmCreate 7 0 (fun _ => ⟨0, 0, 0, 0, none, 0⟩) (fun _ => ⟨false, 0, 0, 0⟩)),
   .op (.mmCreate 8 1 (fun _ => ⟨0, 0, 0, 0, none, 0⟩) (fun _ => ⟨false, 0, 0, 0⟩)),
   .doShmem 7 0x800000 0x4000 mmapWrite (some 5)]

/-- The shared memory is cut at both ends, and the first address space is copied into the second. -/
theorem shared_vmas_iff_cut :
    Guarded.CorrectUpTo (traceStep Layout.i386 quietPages bumpKmalloc) (SharedOk Layout.i386)
      (fun e => e = .pages) (Traced.init ⟨0, fun _ => ⟨0, 0⟩, ()⟩)
      (sharedCalls ++ [.op (.mmUnmap 7 0x7ff000 0x2000), .op (.mmUnmap 7 0x803000 0x1000),
        .op (.dupMmap 8 7)]) := by
  refine (shared_vmas_iff i386 quietPages bumpKmalloc ⟨0, fun _ => ⟨0, 0⟩, ()⟩ (fun _ => rfl) _).mpr ?_
  decide +kernel

/-- A page strictly inside the shared memory is unmapped: the lower part is shared and has no object,
and its addresses no longer stand for what they stood for. -/
theorem shared_vmas_split : ∃ τ mm, (sharedCalls ++ [Call.op (.mmUnmap 7 0x801000 0x1000)]).foldlM
        (traceStep Layout.i386 quietPages bumpKmalloc) (Traced.init ⟨0, fun _ => ⟨0, 0⟩, ()⟩) = .ok τ ∧
      τ.system.mms 7 = some mm ∧
      (∃ v ∈ mm.mmapList, (mm.vmas v).share = true ∧ (mm.vmas v).shmem = none) ∧
      τ.origin 7 0x800000 = some (some (5, 0)) ∧
      τ.system.view Layout.i386 7 0x800000 = some none := by
  generalize hrun : List.foldlM (traceStep _ quietPages _) _ _ = x
  have hx : x.toOption.bind (fun τ => (τ.system.mms 7).map fun mm =>
      (mm.mmapList.any fun v => (mm.vmas v).share && (mm.vmas v).shmem = none, τ.origin 7 0x800000,
        τ.system.view i386 7 0x800000)) = some (true, some (some (5, 0)), some none) := by
    rw [← hrun]
    decide +kernel
  obtain ⟨τ, hτ, hmap⟩ := Option.bind_eq_some_iff.mp hx
  obtain ⟨mm, hmm, -⟩ := Option.map_eq_some_iff.mp hmap
  grind [eq_ok_of_toOption]

end UcoreKernel.Vmm
