import UcoreKernel.Mm.VmaSearch

/-!
The lengths that `do_mmap`, `do_shmem` and `do_munmap` accept.

The end of a request is `addr + len` modulo the size of the address space, rounded up to a page. An end
that is not above the start is refused, but a length of almost the whole address space brings the end of
the range back into the page that it starts in. Such a request succeeds, for one page.
-/

namespace UcoreKernel.Vmm

open Layout

variable {P : Type}

/-! ### The calls -/

section Calls

variable (A : Layout) (ops : PageOps P) (K : Kmalloc)

/-- The length of a request, as `do_mmap` and `do_shmem` round it: `ROUNDUP (addr + len, PGSIZE)` less
`ROUNDDOWN (addr, PGSIZE)`. -/
def requestLen (addr len : ℕ) : ℕ :=
  (A.rangeEnd addr len + 2 ^ A.wordBits - A.roundDown addr) % 2 ^ A.wordBits

/-- Where a request is mapped: at its page, or where there is room if that is 0. -/
def requestAddr (mm : Mm) (addr len : ℕ) : ℕ :=
  if A.roundDown addr = 0 then getUnmappedArea A mm (requestLen A addr len) else A.roundDown addr

/-- The flags of the VMA. -/
def requestFlags (mmapFlags : BitVec 32) : BitVec 32 :=
  vmRead ||| (if mmapFlags &&& mmapWrite ≠ 0 then vmWrite else 0) |||
    (if mmapFlags &&& mmapStack ≠ 0 then vmStack else 0)

/-- `do_mmap`, when `*addr_store` is `addr`. -/
def doMmap (s : St P) (addr len : ℕ) (mmapFlags : BitVec 32) : Except Stop (Except Errno Unit × St P) :=
  if len = 0 then .ok (.error .inval, s)
  else if requestAddr A s.mm addr len = 0 then .ok (.error .noMem, s)
  else do
    let r ← mmMap A K s (requestAddr A s.mm addr len) (requestLen A addr len) (requestFlags mmapFlags)
    match r with
    | (.error e, s) => return (.error e, s)
    | (.ok _, s) => return (.ok (), s)

/-- `do_munmap`. -/
def doMunmap (s : St P) (addr len : ℕ) : Except Stop (Except Errno Unit × St P) :=
  if len = 0 then .ok (.error .inval, s) else mmUnmap A ops K s addr len

/-- A system call; `object` is what `kmalloc` returns for the object of `do_shmem`. -/
inductive Request where
  | mmap (mmapFlags : BitVec 32)
  | shmem (mmapFlags : BitVec 32) (object : Option ℕ)
  | munmap

/-- The system call, for `len` bytes at `addr`. -/
def Request.exec (s : St P) (addr len : ℕ) : Request → Except Stop (Except Errno Unit × St P)
  | .mmap mmapFlags => doMmap A K s addr len mmapFlags
  | .shmem mmapFlags object => doShmem A ops K s addr len mmapFlags object
  | .munmap => doMunmap A ops K s addr len

/-- The address that a mapping was asked for, or the one that was chosen for it. -/
def requestBase (mm : Mm) (addr len : ℕ) : ℕ :=
  if A.roundDown addr = 0 then getUnmappedArea A mm (requestLen A addr len) else addr

/-- All of the range is in user memory, and it has been mapped or unmapped. -/
def Request.Done (s s' : St P) (addr len : ℕ) : Request → Prop
  | .mmap mmapFlags =>
    A.userBase ≤ requestBase A s.mm addr len ∧ requestBase A s.mm addr len + len ≤ A.userTop ∧
      ∀ x, requestBase A s.mm addr len ≤ x → x < requestBase A s.mm addr len + len →
        s'.mm.Area x (requestFlags mmapFlags)
  | .shmem mmapFlags _ =>
    A.userBase ≤ requestBase A s.mm addr len ∧ requestBase A s.mm addr len + len ≤ A.userTop ∧
      ∀ x, requestBase A s.mm addr len ≤ x → x < requestBase A s.mm addr len + len →
        s'.mm.Area x (requestFlags mmapFlags ||| vmShare)
  | .munmap => A.userBase ≤ addr ∧ addr + len ≤ A.userTop ∧
      ∀ x f, addr ≤ x → x < addr + len → ¬s'.mm.Area x f

/-- A request that succeeds has an end in the address space, and has been done. -/
def Request.Right (req : Request) (s : St P) (addr len : ℕ) : Prop :=
  ∀ s', req.exec A ops K s addr len = .ok (.ok (), s') →
    addr + len < 2 ^ A.wordBits ∧ req.Done A s s' addr len

/-- The request comes back into its first page, and that page can be mapped, or another one in its
place. -/
def Request.Wraps (addr len : ℕ) (req : Request) : Prop :=
  2 ^ A.wordBits + A.roundDown addr < addr + len ∧
    match req with
    | .munmap => A.userBase ≤ A.roundDown addr ∧ A.roundDown addr + A.pgsize ≤ A.userTop
    | .mmap _ => (A.userBase ≤ A.roundDown addr ∧ A.roundDown addr + A.pgsize ≤ A.userTop) ∨
        (A.roundDown addr = 0 ∧ A.userBase + A.pgsize ≤ A.userTop)
    | .shmem _ object => object ≠ none ∧
        ((A.userBase ≤ A.roundDown addr ∧ A.roundDown addr + A.pgsize ≤ A.userTop) ∨
          (A.roundDown addr = 0 ∧ A.userBase + A.pgsize ≤ A.userTop))

end Calls

/-! ### Rounding -/

namespace Layout

variable {A : Layout} {addr len x : ℕ}

section

variable (A : Layout) (x : ℕ)

lemma roundDown_le : A.roundDown x ≤ x := Nat.sub_le _ _

lemma lt_roundDown_add : x < A.roundDown x + A.pgsize := by
  have := Nat.mod_lt x A.pgsize_pos
  rw [roundDown]
  omega

lemma dvd_roundUp : A.pgsize ∣ A.roundUp x := A.dvd_roundDown _

end

/-- A multiple of the page size that is not above a number is not above its page. -/
lemma le_roundDown {m : ℕ} (hm : A.pgsize ∣ m) (h : m ≤ x) : m ≤ A.roundDown x := by
  by_contra hlt
  have hdvd := Nat.dvd_sub hm (A.dvd_roundDown x)
  have hle := Nat.le_of_dvd (by omega) hdvd
  have := A.lt_roundDown_add x
  omega

lemma roundDown_of_lt (h : x < A.pgsize) : A.roundDown x = 0 := by
  rw [roundDown, Nat.mod_eq_of_lt h, Nat.sub_self]

/-- Rounding up, as long as it stays below the end of the address space; otherwise the result is 0. -/
lemma roundUp_cases (hx : x < 2 ^ A.wordBits) :
    (x ≤ A.roundUp x ∧ A.roundUp x < x + A.pgsize) ∨ A.roundUp x = 0 := by
  have hpos := A.pgsize_pos
  have htop := A.userTop_le
  by_cases hfits : x + A.pgsize - 1 < 2 ^ A.wordBits
  · rw [roundUp, Nat.mod_eq_of_lt hfits]
    have hle := A.roundDown_le (x + A.pgsize - 1)
    have hlt := A.lt_roundDown_add (x + A.pgsize - 1)
    exact .inl ⟨by omega, by omega⟩
  · have hmod : (x + A.pgsize - 1) % 2 ^ A.wordBits < A.pgsize := by
      rw [Nat.mod_eq_sub_mod (by omega), Nat.mod_eq_of_lt (by omega)]
      omega
    exact .inr (roundDown_of_lt hmod)

/-- A request that does not wrap around ends where it should. -/
lemma le_rangeEnd (hfits : addr + len < 2 ^ A.wordBits)
    (haccess : A.UserAccess (A.roundDown addr) (A.rangeEnd addr len)) : addr + len ≤ A.rangeEnd addr len := by
  rw [rangeEnd, Nat.mod_eq_of_lt hfits] at haccess ⊢
  obtain h | h := roundUp_cases hfits
  · exact h.1
  · have := haccess.2.1
    omega

/-- A request that wraps around is refused, unless it comes back into its first page. -/
lemma rangeEnd_of_wraps (haddr : addr < 2 ^ A.wordBits) (hlen : len < 2 ^ A.wordBits)
    (hwraps : 2 ^ A.wordBits ≤ addr + len) : A.UserAccess (A.roundDown addr) (A.rangeEnd addr len) ↔
      2 ^ A.wordBits + A.roundDown addr < addr + len ∧ A.userBase ≤ A.roundDown addr ∧
        A.roundDown addr + A.pgsize ≤ A.userTop := by
  have hdvd := A.dvd_roundDown addr
  have hdvd' := A.dvd_rangeEnd addr len
  have hlt := A.lt_roundDown_add addr
  have htop := A.userTop_le
  have hmod := (Nat.mod_eq_sub_mod hwraps).trans (Nat.mod_eq_of_lt (by omega))
  have hend : A.rangeEnd addr len = A.roundUp (addr + len - 2 ^ A.wordBits) := by rw [rangeEnd, hmod]
  have hcases := A.roundUp_cases (x := addr + len - 2 ^ A.wordBits) (by omega)
  rw [← hend] at hcases
  generalize hstop : A.rangeEnd addr len = stop at *
  constructor
  · rintro ⟨hbase, hbefore, hstop⟩
    obtain ⟨hge, hnear⟩ := hcases.resolve_right (by omega)
    -- the end is at least one page above the start
    have hpage : A.roundDown addr + A.pgsize ≤ stop := by
      have := Nat.le_of_dvd (by omega) (Nat.dvd_sub hdvd' hdvd)
      omega
    exact ⟨by omega, hbase, by omega⟩
  · rintro ⟨hback, hbase, hroom⟩
    have hne : stop ≠ 0 := by
      intro hzero
      rw [roundUp, Nat.mod_eq_of_lt (by omega)] at hend
      have := A.lt_roundDown_add (addr + len - 2 ^ A.wordBits + A.pgsize - 1)
      omega
    obtain ⟨hge, hnear⟩ := hcases.resolve_right hne
    refine ⟨hbase, by omega, ?_⟩
    -- there is one multiple of the page size between them
    by_contra hgt
    have := Nat.le_of_dvd (by omega) (Nat.dvd_sub hdvd' (dvd_add hdvd (dvd_refl A.pgsize)))
    omega

end Layout

variable {A : Layout} {ops : PageOps P} {K : Kmalloc} {s s' : St P} {addr len : ℕ} {vmFlags mmapFlags : BitVec 32}

/-! ### What the calls do -/

/-- The flags of a request do not have `VM_SHARE`. -/
lemma requestFlags_and (mmapFlags : BitVec 32) :
    requestFlags mmapFlags &&& ~~~vmShare = requestFlags mmapFlags := by
  rw [requestFlags]
  split_ifs <;> decide

/-- `mm_map` that succeeds has mapped its range. -/
lemma mmMap_area (hinv : MmInv A s.mm) {a : ℕ} (h : mmMap A K s addr len vmFlags = .ok (.ok a, s')) :
    A.UserAccess (A.roundDown addr) (A.rangeEnd addr len) ∧ a ∈ s'.mm.mmapList ∧ s'.mm.vmas a =
        ⟨s.mm.self, A.roundDown addr, A.rangeEnd addr len, vmFlags &&& ~~~vmShare, none, 0⟩ := by
  obtain ⟨r, s'', hrun, -, -, -, -, -, -, hok⟩ := mmMap_spec hinv addr len vmFlags
  cases hrun.symm.trans h
  obtain ⟨haccess, -, hperm, -, hvmas⟩ := hok a rfl
  refine ⟨haccess, hperm.mem_iff.mpr (.head _), ?_⟩
  rw [hvmas, Function.update_self]

/-- `mm_map` of a free range succeeds, if `kmalloc` does. -/
lemma mmMap_of_free (hinv : MmInv A s.mm) (haccess : A.UserAccess (A.roundDown addr) (A.rangeEnd addr len))
    (hfree : s.mm.Free (A.roundDown addr) (A.rangeEnd addr len))
    (hpick : ∀ call blocks, K.pick call blocks ≠ none) (vmFlags : BitVec 32) :
    ∃ a s', mmMap A K s addr len vmFlags = .ok (.ok a, s') := by
  have hdown := A.dvd_roundDown addr
  have hup := A.dvd_rangeEnd addr len
  rw [mmMap]
  generalize A.roundDown addr = start at *
  generalize A.rangeEnd addr len = stop at *
  simp only [if_neg (not_not.mpr haccess)]
  obtain ⟨cache, hfind, hinv1⟩ := findVma_spec hinv start
  have hmeet : ¬((firstAbove s.mm.vmas start s.mm.mmapList).any
      fun vma => decide (stop > (s.mm.vmas vma).vmStart)) = true := by
    cases hfirst : firstAbove s.mm.vmas start s.mm.mmapList with
    | none => simp
    | some v =>
      obtain ⟨hend, l1, l2, hl, -⟩ := firstAbove_eq_some hfirst
      obtain h | h := hfree v (by simp [hl])
      · omega
      · simpa using h
  simp only [hfind, ok_bind, if_neg hmeet]
  rcases hnew : vmaCreate K { s with mm := { s.mm with mmapCache := cache } } start stop
      (vmFlags &&& ~~~vmShare) with ⟨_ | a, s1⟩
  · grind [vmaCreate, kmalloc]
  · obtain ⟨s', hins, -⟩ := vmaCreate_insert hnew hinv1 hdown hup haccess hfree
    exact ⟨a, s', by simp only [hins, ok_bind, pure_eq_ok]⟩

lemma shmemCreate_len (s : St P) (k len : ℕ) : ((shmemCreate s k len).kernel.shmems k).len = len := by
  simp [shmemCreate]

/-- `mm_map_shmem` that succeeds has mapped its range. -/
lemma mmMapShmem_area (hinv : MmInv A s.mm) {k a : ℕ} (hlen : (s.kernel.shmems k).len = len)
    (h : mmMapShmem A K s addr vmFlags (some k) = .ok (.ok a, s')) :
    A.UserAccess (A.roundDown addr) (A.rangeEnd addr len) ∧ ∀ x, A.roundDown addr ≤ x →
      x < A.rangeEnd addr len → s'.mm.Area x (vmFlags &&& ~~~vmShare ||| vmShare) := by
  replace hlen : ((shmemRefAdd s k 1).kernel.shmems k).len = len := by simp [shmemRefAdd, hlen]
  rw [mmMapShmem] at h
  split_ifs at h with haligned
  · cases h
  obtain ⟨⟨r, s1⟩, hmap, hrest⟩ := bind_eq_ok_iff.mp h
  cases r with
  | error e => cases hrest
  | ok b =>
    obtain ⟨haccess, hb, hvma⟩ := mmMap_area (s := shmemRefAdd s k 1) hinv hmap
    rw [hlen] at haccess hvma
    cases hrest
    refine ⟨haccess, fun x hx hx' => ⟨a, hb, ?_⟩⟩
    rw [Mm.setVma_same, hvma]
    exact ⟨hx, hx', rfl⟩

/-- `mm_map_shmem` succeeds if `mm_map` does. -/
lemma mmMapShmem_of_mmMap {k a : ℕ} (haligned : A.pgsize ∣ addr)
    (h : mmMap A K (shmemRefAdd s k 1) addr (s.kernel.shmems k).len vmFlags = .ok (.ok a, s')) :
    ∃ s'', mmMapShmem A K s addr vmFlags (some k) = .ok (.ok a, s'') := by
  have hlen : ((shmemRefAdd s k 1).kernel.shmems k).len = (s.kernel.shmems k).len := by simp [shmemRefAdd]
  have hmod : ¬addr % A.pgsize ≠ 0 := not_not.mpr (Nat.mod_eq_zero_of_dvd haligned)
  simp only [mmMapShmem, if_neg hmod, hlen, h, ok_bind]
  exact ⟨_, rfl⟩

/-! ### Requests that do not wrap around -/

lemma requestLen_lt (A : Layout) (addr len : ℕ) : requestLen A addr len < 2 ^ A.wordBits :=
  Nat.mod_lt _ (Nat.two_pow_pos _)

lemma rangeEnd_lt (A : Layout) (addr len : ℕ) : A.rangeEnd addr len < 2 ^ A.wordBits :=
  (A.roundDown_le _).trans_lt (Nat.mod_lt _ (Nat.two_pow_pos _))

/-- The length is that of the pages, from the first one on. -/
lemma add_requestLen_mod (len : ℕ) (haddr : addr < 2 ^ A.wordBits) :
    (A.roundDown addr + requestLen A addr len) % 2 ^ A.wordBits = A.rangeEnd addr len := by
  have hend := rangeEnd_lt A addr len
  have hle := A.roundDown_le addr
  grind [requestLen, Nat.add_mod_mod, Nat.add_mod_right, Nat.mod_eq_of_lt]

/-- Rounding once more changes nothing, if the range is in user memory. -/
lemma rangeEnd_requestLen (haddr : addr < 2 ^ A.wordBits)
    (haccess : A.UserAccess (A.roundDown addr) (A.rangeEnd (A.roundDown addr) (requestLen A addr len))) :
    A.rangeEnd (A.roundDown addr) (requestLen A addr len) = A.rangeEnd addr len := by
  have hdvd := A.dvd_rangeEnd addr len
  have hround : A.rangeEnd (A.roundDown addr) (requestLen A addr len) = A.roundUp (A.rangeEnd addr len) := by
    rw [rangeEnd, add_requestLen_mod len haddr]
  have hlt := haccess.2.1
  obtain ⟨hge, hnear⟩ | hzero := A.roundUp_cases (rangeEnd_lt A addr len)
  · by_contra hne
    have := Nat.le_of_dvd (by omega) (Nat.dvd_sub (A.dvd_roundUp (A.rangeEnd addr len)) hdvd)
    omega
  · omega

/-- The length of a request that starts in the first page of the address space. -/
lemma requestLen_of_zero (haddr : addr < 2 ^ A.wordBits) (hzero : A.roundDown addr = 0) :
    requestLen A addr len = A.rangeEnd addr len := by
  have hmod := add_requestLen_mod len haddr
  rwa [hzero, zero_add, Nat.mod_eq_of_lt (requestLen_lt A addr len)] at hmod

section

variable (hinv : MmInv A s.mm) (haddr : addr < 2 ^ A.wordBits) (hfits : addr + len < 2 ^ A.wordBits)
  (hne : requestAddr A s.mm addr len ≠ 0) (haccess : A.UserAccess (A.roundDown (requestAddr A s.mm addr len))
    (A.rangeEnd (requestAddr A s.mm addr len) (requestLen A addr len)))
include hinv haddr hfits hne haccess

/-- What is asked of the range that is passed to `mm_map`: it has all of the request. -/
lemma requestBase_spec : A.roundDown (requestAddr A s.mm addr len) ≤ requestBase A s.mm addr len ∧
      requestBase A s.mm addr len + len ≤ A.rangeEnd (requestAddr A s.mm addr len) (requestLen A addr len) := by
  rw [requestAddr] at *
  rw [requestBase]
  split_ifs at * with hzero
  · -- a place is chosen
    have hlen : requestLen A addr len = A.rangeEnd addr len := requestLen_of_zero haddr hzero
    have hpos : 0 < requestLen A addr len := by grind [getUnmappedArea]
    have hroom := hinv.getUnmappedArea_spec hpos
    rw [HighestOrZero, if_neg hne] at hroom
    obtain ⟨-, htop, -⟩ := hroom.1
    have hend : len ≤ A.rangeEnd addr len := by
      obtain h | h := A.roundUp_cases hfits
      · rw [rangeEnd, Nat.mod_eq_of_lt hfits]
        omega
      · rw [hlen, rangeEnd, Nat.mod_eq_of_lt hfits, h] at hpos
        omega
    have hle := le_rangeEnd (by have := A.userTop_le; have := A.pgsize_pos; omega) haccess
    exact ⟨A.roundDown_le _, by omega⟩
  · have hdown := roundDown_of_dvd (A.dvd_roundDown addr)
    rw [hdown] at haccess ⊢
    have hend := rangeEnd_requestLen haddr haccess
    rw [hend] at haccess ⊢
    exact ⟨A.roundDown_le addr, le_rangeEnd hfits haccess⟩

/-- The range that is passed to `mm_map` has been mapped, so the request has been done. -/
lemma done_of_area {f : BitVec 32} (harea : ∀ x, A.roundDown (requestAddr A s.mm addr len) ≤ x →
      x < A.rangeEnd (requestAddr A s.mm addr len) (requestLen A addr len) → s'.mm.Area x f) :
    A.userBase ≤ requestBase A s.mm addr len ∧ requestBase A s.mm addr len + len ≤ A.userTop ∧
      ∀ x, requestBase A s.mm addr len ≤ x → x < requestBase A s.mm addr len + len → s'.mm.Area x f := by
  obtain ⟨hlow, hhigh⟩ := requestBase_spec hinv haddr hfits hne haccess
  refine ⟨haccess.1.trans hlow, hhigh.trans haccess.2.2, fun x hx hx' => harea x (hlow.trans hx) ?_⟩
  exact hx'.trans_le hhigh

end

section

variable (haddr : addr < 2 ^ A.wordBits) (hlen : len < 2 ^ A.wordBits) (hwraps : 2 ^ A.wordBits ≤ addr + len)
include haddr hlen hwraps

/-- A request in the first page that wraps around is one for a page, or for nothing. -/
lemma rangeEnd_of_zero (hzero : A.roundDown addr = 0) (hpage : 2 * A.pgsize ≤ 2 ^ A.wordBits) :
    A.rangeEnd addr len = if 2 ^ A.wordBits < addr + len then A.pgsize else 0 := by
  have hlt := A.lt_roundDown_add addr
  have hpos := A.pgsize_pos
  have hmod := (Nat.mod_eq_sub_mod hwraps).trans (Nat.mod_eq_of_lt (by omega))
  rw [rangeEnd, hmod, roundUp, Nat.mod_eq_of_lt (by omega)]
  split_ifs with hback
  · have hge := le_roundDown (dvd_refl A.pgsize) (show A.pgsize ≤ addr + len - 2 ^ A.wordBits + A.pgsize - 1 by omega)
    have hle := A.roundDown_le (addr + len - 2 ^ A.wordBits + A.pgsize - 1)
    by_contra hne
    have := Nat.le_of_dvd (by omega)
      (Nat.dvd_sub (A.dvd_roundDown (addr + len - 2 ^ A.wordBits + A.pgsize - 1)) (dvd_refl A.pgsize))
    omega
  · exact roundDown_of_lt (by omega)

/-- A request for a mapping that wraps around and is not refused. -/
lemma wraps_of_access (hinv : MmInv A s.mm) (hne : requestAddr A s.mm addr len ≠ 0)
    (haccess : A.UserAccess (A.roundDown (requestAddr A s.mm addr len))
      (A.rangeEnd (requestAddr A s.mm addr len) (requestLen A addr len))) :
    2 ^ A.wordBits + A.roundDown addr < addr + len ∧
      ((A.userBase ≤ A.roundDown addr ∧ A.roundDown addr + A.pgsize ≤ A.userTop) ∨
        (A.roundDown addr = 0 ∧ A.userBase + A.pgsize ≤ A.userTop)) := by
  rw [requestAddr] at hne haccess
  split_ifs at hne haccess with hzero
  · have htop := A.userTop_le
    have hpos : 0 < requestLen A addr len := by grind [getUnmappedArea]
    have hroom := hinv.getUnmappedArea_spec hpos
    rw [HighestOrZero, if_neg hne] at hroom
    obtain ⟨hbase, hend, -⟩ := hroom.1
    rw [requestLen_of_zero haddr hzero] at hbase hend hpos
    have hpage := Nat.le_of_dvd hpos (A.dvd_rangeEnd addr len)
    have htwo : 2 * A.pgsize ≤ 2 ^ A.wordBits := by omega
    rw [rangeEnd_of_zero haddr hlen hwraps hzero htwo] at hbase hend hpos
    split_ifs at hbase hend hpos with hback
    · exact ⟨by omega, .inr ⟨hzero, by omega⟩⟩
    · omega
  · have hdown := roundDown_of_dvd (A.dvd_roundDown addr)
    grind [rangeEnd_requestLen, rangeEnd_of_wraps]

end

/-! ### Requests that succeed -/

/-- `do_mmap` succeeds if `mm_map` does. -/
lemma doMmap_eq_ok_iff : doMmap A K s addr len mmapFlags = .ok (.ok (), s') ↔
    len ≠ 0 ∧ requestAddr A s.mm addr len ≠ 0 ∧
      ∃ a, mmMap A K s (requestAddr A s.mm addr len) (requestLen A addr len) (requestFlags mmapFlags) =
        .ok (.ok a, s') := by
  rw [doMmap]
  split_ifs with hlen hne
  · simp [hlen]
  · simp [hne]
  · rw [bind_eq_ok_iff]
    simp only [ne_eq, hlen, hne, not_false_eq_true, true_and]
    constructor
    · rintro ⟨⟨r, s1⟩, hmap, hrest⟩
      cases r with
      | error e => cases hrest
      | ok a =>
        cases hrest
        exact ⟨a, hmap⟩
    · rintro ⟨a, hmap⟩
      exact ⟨_, hmap, rfl⟩

/-- `do_shmem` succeeds if `mm_map_shmem` does. -/
lemma doShmem_eq_ok_iff {object : Option ℕ} : doShmem A ops K s addr len mmapFlags object = .ok (.ok (), s') ↔
    len ≠ 0 ∧ requestAddr A s.mm addr len ≠ 0 ∧ ∃ k a, object = some k ∧
      mmMapShmem A K (shmemCreate s k (requestLen A addr len)) (requestAddr A s.mm addr len)
        (requestFlags mmapFlags) (some k) = .ok (.ok a, s') := by
  have hunfold : doShmem A ops K s addr len mmapFlags object = if len = 0 then .ok (.error .inval, s)
      else if requestAddr A s.mm addr len = 0 then .ok (.error .noMem, s)
      else doShmemMap A ops K s (requestAddr A s.mm addr len) (requestLen A addr len)
        (requestFlags mmapFlags) object := rfl
  rw [hunfold]
  split_ifs with hlen hne
  · simp [hlen]
  · simp [hne]
  · simp only [ne_eq, hlen, hne, not_false_eq_true, true_and]
    cases object with
    | none => simp [doShmemMap]
    | some k =>
      simp only [doShmemMap, bind_eq_ok_iff, Option.some.injEq]
      constructor
      · rintro ⟨⟨r, s1⟩, hmap, hrest⟩
        cases r with
        | error e =>
          obtain ⟨_, -, hdestroy⟩ := bind_eq_ok_iff.mp hrest
          obtain ⟨s2, -, hret⟩ := bind_eq_ok_iff.mp hdestroy
          cases hret
        | ok a =>
          cases hrest
          exact ⟨k, a, rfl, hmap⟩
      · rintro ⟨k', a, rfl, hmap⟩
        exact ⟨_, hmap, rfl⟩

/-- `do_munmap` that succeeds has been given a range in user memory. -/
lemma doMunmap_access (h : doMunmap A ops K s addr len = .ok (.ok (), s')) :
    A.UserAccess (A.roundDown addr) (A.rangeEnd addr len) ∧ mmUnmap A ops K s addr len = .ok (.ok (), s') := by
  rw [doMunmap] at h
  split_ifs at h with hlen
  · cases h
  grind [mmUnmap]

/-- A request that succeeds is done, if it does not wrap around. -/
lemma Request.done (req : Request) (hinv : MmInv A s.mm) (haddr : addr < 2 ^ A.wordBits)
    (hfits : addr + len < 2 ^ A.wordBits) (h : req.exec A ops K s addr len = .ok (.ok (), s')) :
    req.Done A s s' addr len := by
  cases req with
  | mmap mmapFlags =>
    obtain ⟨-, hne, a, hmap⟩ := doMmap_eq_ok_iff.mp h
    obtain ⟨haccess, ha, hvma⟩ := mmMap_area hinv hmap
    rw [requestFlags_and] at hvma
    refine done_of_area hinv haddr hfits hne haccess fun x hx hx' => ⟨a, ha, ?_⟩
    rw [hvma]
    exact ⟨hx, hx', rfl⟩
  | shmem mmapFlags object =>
    obtain ⟨-, hne, k, a, -, hmap⟩ := doShmem_eq_ok_iff.mp h
    obtain ⟨haccess, harea⟩ := mmMapShmem_area (by exact hinv) (shmemCreate_len s k _) hmap
    rw [requestFlags_and] at harea
    exact done_of_area hinv haddr hfits hne haccess harea
  | munmap =>
    obtain ⟨haccess, hunmap⟩ := doMunmap_access h
    have hdone : Except.Ensures _ (mmUnmap A ops K s addr len) _ := mmUnmap_ensures hinv addr len
    rw [hunmap] at hdone
    have hlow := A.roundDown_le addr
    have hhigh := le_rangeEnd hfits haccess
    refine ⟨haccess.1.trans hlow, hhigh.trans haccess.2.2, fun x f hx hx' harea => ?_⟩
    exact ((hdone.area x f).mp harea).2 ⟨hlow.trans hx, hx'.trans_le hhigh⟩

/-- A request that succeeds does not wrap around, or comes back into its first page. -/
lemma Request.wraps (req : Request) (hinv : MmInv A s.mm) (haddr : addr < 2 ^ A.wordBits)
    (hlen : len < 2 ^ A.wordBits) (hwraps : 2 ^ A.wordBits ≤ addr + len)
    (h : req.exec A ops K s addr len = .ok (.ok (), s')) : req.Wraps A addr len := by
  cases req with
  | mmap mmapFlags =>
    obtain ⟨-, hne, a, hmap⟩ := doMmap_eq_ok_iff.mp h
    exact wraps_of_access haddr hlen hwraps hinv hne (mmMap_area hinv hmap).1
  | shmem mmapFlags object =>
    obtain ⟨-, hne, k, a, rfl, hmap⟩ := doShmem_eq_ok_iff.mp h
    obtain ⟨haccess, -⟩ := mmMapShmem_area (by exact hinv) (shmemCreate_len s k _) hmap
    obtain ⟨hback, hpage⟩ := wraps_of_access haddr hlen hwraps hinv hne haccess
    exact ⟨hback, Option.some_ne_none k, hpage⟩
  | munmap =>
    obtain ⟨haccess, -⟩ := doMunmap_access h
    exact (rangeEnd_of_wraps haddr hlen hwraps).mp haccess

/-! ### An address space in which a request that wraps around succeeds -/

/-- An address space without VMAs. -/
def emptySpace [Inhabited P] : St P :=
  ⟨⟨0, fun _ => ⟨0, 0⟩, default⟩, mmCreate 0 0 (fun _ => ⟨0, 0, 0, 0, none, 0⟩) (fun _ => ⟨false, 0, 0, 0⟩)⟩

lemma emptySpace_inv [Inhabited P] : MmInv A (emptySpace : St P).mm := mmCreate_inv _ _ _ _

/-- The range that is passed to `mm_map` is one page. -/
lemma access_of_wraps [Inhabited P] (htop : A.pgsize ∣ A.userTop) (haddr : addr < 2 ^ A.wordBits)
    (hlen : len < 2 ^ A.wordBits) (hback : 2 ^ A.wordBits + A.roundDown addr < addr + len)
    (hpage : (A.userBase ≤ A.roundDown addr ∧ A.roundDown addr + A.pgsize ≤ A.userTop) ∨
      (A.roundDown addr = 0 ∧ A.userBase + A.pgsize ≤ A.userTop)) :
    requestAddr A (emptySpace : St P).mm addr len ≠ 0 ∧
      A.pgsize ∣ requestAddr A (emptySpace : St P).mm addr len ∧
      A.UserAccess (A.roundDown (requestAddr A (emptySpace : St P).mm addr len))
        (A.rangeEnd (requestAddr A (emptySpace : St P).mm addr len) (requestLen A addr len)) := by
  have hle := A.userTop_le
  have hpos := A.userBase_pos
  have hpg := A.pgsize_pos
  rw [requestAddr]
  split_ifs with hzero
  · have htwo : A.userBase + A.pgsize ≤ A.userTop := by omega
    have hreq : requestLen A addr len = A.pgsize := by grind [requestLen_of_zero, rangeEnd_of_zero]
    have harea : getUnmappedArea A (emptySpace : St P).mm (requestLen A addr len) = A.userTop - A.pgsize := by
      rw [hreq, getUnmappedArea, if_neg (by omega)]
      change getUnmappedAreaLoop A A.pgsize [] (A.userTop - A.pgsize) = _
      rw [getUnmappedAreaLoop, if_pos (by omega)]
    have hdvd := Nat.dvd_sub htop (dvd_refl _)
    rw [harea, hreq]
    have hacc : A.UserAccess (A.userTop - A.pgsize) A.userTop := ⟨by omega, by omega, le_rfl⟩
    have hend := rangeEnd_of_access htop hacc
    grind [roundDown_of_dvd]
  · obtain ⟨hbase, hroom⟩ := hpage.resolve_right fun h => hzero h.1
    have haccess := (rangeEnd_of_wraps haddr hlen (by omega)).mpr ⟨hback, hbase, hroom⟩
    refine ⟨hzero, A.dvd_roundDown addr, ?_⟩
    have hreq : requestLen A addr len = A.rangeEnd addr len - A.roundDown addr := by
      have := haccess.2.1
      have := rangeEnd_lt A addr len
      rw [requestLen, add_comm, Nat.add_sub_assoc (by omega), Nat.add_mod_left, Nat.mod_eq_of_lt (by omega)]
    rw [roundDown_of_dvd (A.dvd_roundDown addr), hreq, rangeEnd_of_access (A.dvd_rangeEnd addr len) haccess]
    exact haccess

/-- A request that comes back into its first page succeeds, if no VMA is in the way and `kmalloc`
succeeds. -/
lemma Request.succeeds [Inhabited P] (ops : PageOps P) (req : Request) (htop : A.pgsize ∣ A.userTop)
    (haddr : addr < 2 ^ A.wordBits) (hlen : len < 2 ^ A.wordBits) (h : req.Wraps A addr len) :
    ∃ s', req.exec A ops bumpKmalloc (emptySpace : St P) addr len = .ok (.ok (), s') := by
  have hne : len ≠ 0 := by
    have := h.1
    have := A.roundDown_le addr
    omega
  have hpick : ∀ call blocks, bumpKmalloc.pick call blocks ≠ none := fun _ _ => Option.some_ne_none _
  cases req with
  | mmap mmapFlags =>
    obtain ⟨hback, hpage⟩ := h
    obtain ⟨hne', -, haccess⟩ := access_of_wraps (P := P) htop haddr hlen hback hpage
    obtain ⟨a, s', hmap⟩ := mmMap_of_free (s := (emptySpace : St P)) emptySpace_inv haccess nofun hpick
      (requestFlags mmapFlags)
    exact ⟨s', doMmap_eq_ok_iff.mpr ⟨hne, hne', a, hmap⟩⟩
  | shmem mmapFlags object =>
    obtain ⟨hback, hobject, hpage⟩ := h
    obtain ⟨k, rfl⟩ := Option.ne_none_iff_exists'.mp hobject
    obtain ⟨hne', hdvd, haccess⟩ := access_of_wraps (P := P) htop haddr hlen hback hpage
    obtain ⟨a, s', hmap⟩ := mmMap_of_free
      (s := shmemRefAdd (shmemCreate (emptySpace : St P) k (requestLen A addr len)) k 1)
      (emptySpace_inv (P := P)) haccess nofun hpick (requestFlags mmapFlags)
    obtain ⟨s'', hshmem⟩ := mmMapShmem_of_mmMap hdvd (by rw [shmemCreate_len]; exact hmap)
    exact ⟨s'', doShmem_eq_ok_iff.mpr ⟨hne, hne', k, a, rfl, hshmem⟩⟩
  | munmap =>
    have haccess := (rangeEnd_of_wraps haddr hlen (by have := h.1; omega)).mpr h
    refine ⟨emptySpace, ?_⟩
    rw [exec, doMunmap, if_neg hne, mmUnmap]
    simp only [if_neg (not_not.mpr haccess)]
    rfl

end UcoreKernel.Vmm
