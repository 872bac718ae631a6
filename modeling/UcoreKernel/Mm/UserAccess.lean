import UcoreKernel.Mm.VmmSystem

/-!
`kern-ucore/mm/vmm.c` and `kern-ucore/arch/i386/mm/vmm.c`: the check of a range of user memory, the
page fault handler, and the copies between user memory and the kernel.

`user_mem_check` and `do_pgfault` each say which accesses a VMA allows. The two rules are stated
here byte by byte (`Vma.Checks`, `Vma.Admits`) and compared. They agree on writing; on reading, the
check lets the lowest page of a stack pass, which the handler does not.

What `do_pgfault` calls in other files is given by `FaultOps`, over any type of page tables.
-/

namespace UcoreKernel.Vmm

open List Layout

open UcoreKernel.Except (Ensures)

/-- `vma->vm_flags & flags`. -/
def Vma.has (v : Vma) (flags : BitVec 32) : Bool := v.vmFlags &&& flags ≠ 0

variable {P : Type} (A : Layout)

/-! ### `user_mem_check` -/

/-- `(write) ? VM_WRITE : VM_READ`. -/
def checkFlag (write : Bool) : BitVec 32 := if write then vmWrite else vmRead

/-- The loop of `user_mem_check`, with a bound on its number of turns. -/
def userMemCheckLoop (write : Bool) (stop : ℕ) : ℕ → Mm → ℕ → Except Stop (Bool × Mm)
  | 0, _, _ => .error .assertion
  | fuel + 1, mm, start =>
    if start < stop then do
      let r ← findVma mm start
      match r.1 with
      | none => return (false, r.2)
      | some vma =>
        let v := r.2.vmas vma
        if start < v.vmStart then return (false, r.2)
        else if !v.has (checkFlag write) then return (false, r.2)
        else if write && v.has vmStack && start < v.vmStart + A.pgsize then return (false, r.2)
        else userMemCheckLoop write stop fuel r.2 v.vmEnd
    else .ok (true, mm)

/-- `user_mem_check`, for an address space. -/
def userMemCheck (mm : Mm) (addr len : ℕ) (write : Bool) : Except Stop (Bool × Mm) :=
  let stop := (addr + len) % 2 ^ A.wordBits
  if ¬A.UserAccess addr stop then .ok (false, mm)
  else userMemCheckLoop A write stop mm.fuel mm addr

/-! ### `do_pgfault` -/

/-- What a page table entry holds. -/
inductive Pte where
  | invalid
  | present (page : ℕ) (uWrite : Bool)
  | swap (entry : ℕ)
  deriving DecidableEq, Repr

/-- The error codes of the handler. -/
inductive FaultErr where
  | inval
  | noMem
  | swapFault
  deriving DecidableEq, Repr

/-- The error codes of `swap_in_page`. -/
inductive SwapErr where
  | noMem
  | swapFault
  deriving DecidableEq, Repr

/-- The handler returns what `swap_in_page` has returned. -/
def SwapErr.toFaultErr : SwapErr → FaultErr
  | .noMem => .noMem
  | .swapFault => .swapFault

/-- What `do_pgfault` calls in other files, on page tables of type `P`. `none` stands for `NULL`
where the source tests for it, and for a call that does not return in `shmemGetEntry`,
`swapDuplicate` and `swapInPage`. A permission is whether the page is writable; `pageCount` is
`page_ref(page) + swap_page_count(page)`. -/
structure FaultOps (P : Type) where
  getPte : P → (pgdir la : ℕ) → Option P
  pte : P → (pgdir la : ℕ) → Pte
  setPte : P → (pgdir la : ℕ) → Pte → P
  allocPage : P → Option ℕ × P
  freePage : P → (page : ℕ) → P
  pgdirAllocPage : P → (pgdir la : ℕ) → (perm : Bool) → Bool × P
  pageInsert : P → (pgdir page la : ℕ) → (perm : Bool) → P
  shmemGetEntry : P → (shmem addr : ℕ) → Option (Option Pte × P)
  swapDuplicate : P → (entry : ℕ) → Option P
  swapInPage : P → (entry : ℕ) → Option (Except SwapErr ℕ × P)
  pageCount : P → (page : ℕ) → ℕ
  copyPage : P → (target source : ℕ) → P

variable (ops : FaultOps P)

/-- The fault on an entry that is not in use, in a VMA that is shared. -/
def faultShared (pages : P) (pgdir : ℕ) (v : Vma) (addr : ℕ) (perm : Bool) :
    Except Stop (Except FaultErr Unit × P) :=
  match v.shmem with
  | none => .error .nullPointer
  | some shmem => do
      let shmemAddr := (addr - v.vmStart + v.shmemOff) % 2 ^ A.wordBits
      let r ← orPages (ops.shmemGetEntry pages shmem shmemAddr)
      match r.1 with
      | none => return (.error .noMem, r.2)
      | some .invalid => return (.error .noMem, r.2)
      | some (.present page _) => return (.ok (), ops.pageInsert r.2 pgdir page addr perm)
      | some (.swap entry) => do
          -- the source duplicates `*ptep`, which is 0 here, and not the entry it copies
          let pages ← orPages (ops.swapDuplicate r.2 0)
          return (.ok (), ops.setPte pages pgdir addr (.swap entry))

/-- The page goes into the table, and a new page that was not needed is given back. -/
def faultInsert (pages : P) (pgdir addr page : ℕ) (newpage : Option ℕ) (perm : Bool) : P :=
  let pages := ops.pageInsert pages pgdir page addr perm
  newpage.elim pages (ops.freePage pages)

/-- The copy on write, where there is more than one user of the page; `ret` is what the handler
returns if there is no page for the copy. -/
def faultCopy (pages : P) (pgdir addr page : ℕ) (newpage : Option ℕ) (perm cow : Bool)
    (ret : Except FaultErr Unit) : Except FaultErr Unit × P :=
  if cow && 1 < ops.pageCount pages page then
    match newpage with
    | none => (ret, pages)
    | some new => (.ok (), faultInsert ops (ops.copyPage pages new page) pgdir addr new none perm)
  else (.ok (), faultInsert ops pages pgdir addr page newpage perm)

/-- The fault on an entry that is in use: the page comes from the swap space, or is copied before it
is written. -/
def faultEntry (pages : P) (pgdir : ℕ) (v : Vma) (errorCode addr : ℕ) (perm : Bool) (pte : Pte) :
    Except Stop (Except FaultErr Unit × P) :=
  let cow : Bool := v.vmFlags &&& (vmShare ||| vmWrite) = vmWrite
  let write := errorCode.testBit 1
  let new := if cow then ops.allocPage pages else (none, pages)
  match pte with
  | .invalid => .error .assertion
  | .present page uWrite => do
      assert (write && !uWrite && cow)
      return faultCopy ops new.2 pgdir addr page new.1 perm cow (.error .noMem)
  | .swap entry => do
      let r ← orPages (ops.swapInPage new.2 entry)
      match r.1 with
      | .error e => return (.error e.toFaultErr, new.1.elim r.2 (ops.freePage r.2))
      | .ok page =>
        if !write && cow then return (.ok (), faultInsert ops r.2 pgdir addr page new.1 false)
        else
          -- `ret` is 0 here, from `swap_in_page`
          return faultCopy ops r.2 pgdir addr page new.1 perm cow (.ok ())

/-- `do_pgfault`, behind the tests of the VMA. -/
def faultIn (pages : P) (pgdir : ℕ) (v : Vma) (errorCode addr : ℕ) : Except Stop (Except FaultErr Unit × P) :=
  let perm := v.has vmWrite
  match ops.getPte pages pgdir addr with
  | none => .ok (.error .noMem, pages)
  | some pages =>
    match ops.pte pages pgdir addr with
    | .invalid =>
      if !v.share then
        let r := ops.pgdirAllocPage pages pgdir addr perm
        .ok (if r.1 then .ok () else .error .noMem, r.2)
      else faultShared A ops pages pgdir v addr perm
    | pte => faultEntry ops pages pgdir v errorCode addr perm pte

/-- `switch (error_code & 3)`: whether the flags of the VMA allow the access. -/
def Vma.allows (v : Vma) (errorCode : ℕ) : Bool :=
  match errorCode % 4 with
  | 0 => v.has (vmRead ||| vmExec)
  | 1 => false
  | _ => v.has vmWrite

/-- `do_pgfault`, for an address space. -/
def doPgfault (s : St P) (errorCode addr : ℕ) : Except Stop (Except FaultErr Unit × St P) := do
  let r ← findVma s.mm addr
  let s := { s with mm := r.2 }
  match r.1 with
  | none => return (.error .inval, s)
  | some vma =>
    let v := s.mm.vmas vma
    if v.vmStart > addr then return (.error .inval, s)
    else if v.has vmStack && addr < v.vmStart + A.pgsize then return (.error .inval, s)
    else if !v.allows errorCode then return (.error .inval, s)
    else do
      let r ← faultIn A ops s.kernel.pages s.mm.pgdir v errorCode (A.roundDown addr)
      return (r.1, { s with kernel := { s.kernel with pages := r.2 } })

/-! ### The copies -/

/-- How an access of the kernel to user memory ends when it does not return:
`panic("handle pgfault failed in kernel mode. %e\n", ret)`, or something else stops the kernel. -/
inductive Crash where
  | pgfault (ret : FaultErr)
  | stop (e : Stop)
  deriving DecidableEq, Repr

/-- The error code of the fault that an access of the kernel raises, if it raises one. -/
def faultCode (write : Bool) : Pte → Option ℕ
  | .present _ uWrite => if write && !uWrite then some 3 else none
  | _ => some (if write then 2 else 0)

/-- `trap_dispatch` on a page fault of the kernel. A handler that follows a `NULL` pointer faults
in turn, below `USERBASE`, where there is no VMA. -/
def kernelFault (s : St P) (errorCode addr : ℕ) : Except Crash (St P) :=
  match doPgfault A ops s errorCode addr with
  | .ok (.ok (), s) => .ok s
  | .ok (.error e, _) => .error (.pgfault e)
  | .error .nullPointer => .error (.pgfault .inval)
  | .error e => .error (.stop e)

/-- An access of the kernel to a byte of user memory: it is tried again after each fault. `faults`
is the number of faults looked at. -/
def touch (write : Bool) (addr : ℕ) : ℕ → St P → Except Crash (St P)
  | 0, s => .ok s
  | faults + 1, s =>
    match faultCode write (ops.pte s.kernel.pages s.mm.pgdir (A.roundDown addr)) with
    | none => .ok s
    | some code => do
        let s ← kernelFault A ops s code addr
        touch write addr faults s

/-- `memcpy`, as far as user memory goes: the accesses to `len` bytes from `addr` on. -/
def touchRange (write : Bool) (faults : ℕ) : ℕ → ℕ → St P → Except Crash (St P)
  | _, 0, s => .ok s
  | addr, len + 1, s => do
      let s ← touch A ops write addr faults s
      touchRange write faults (addr + 1) len s

/-- A copy: the check of the range, for `checkWrite`, and the accesses to it, for `write`. -/
def copyUser (faults : ℕ) (checkWrite write : Bool) (s : St P) (addr len : ℕ) : Except Crash (Bool × St P) :=
  match userMemCheck A s.mm addr len checkWrite with
  | .error e => .error (.stop e)
  | .ok (false, mm) => .ok (false, { s with mm := mm })
  | .ok (true, mm) => do
      let s ← touchRange A ops write faults addr len { s with mm := mm }
      return (true, s)

/-- `copy_from_user`. -/
def copyFromUser (faults : ℕ) (s : St P) (src len : ℕ) (writable : Bool) : Except Crash (Bool × St P) :=
  copyUser A ops faults writable false s src len

/-- `copy_to_user`. -/
def copyToUser (faults : ℕ) (s : St P) (dst len : ℕ) : Except Crash (Bool × St P) :=
  copyUser A ops faults true true s dst len

/-! ### The two rules -/

variable {A ops} {mm mm' : Mm} {s s' : St P} {a addr len start stop b code : ℕ} {write : Bool} {v : Vma}

/-- The address is in the lowest page of a stack. -/
def Vma.Guards (A : Layout) (v : Vma) (b : ℕ) : Prop :=
  v.has vmStack = true ∧ b < v.vmStart + A.pgsize

/-- `user_mem_check` lets the access to a byte of the VMA pass. -/
def Vma.Checks (A : Layout) (v : Vma) (write : Bool) (b : ℕ) : Prop :=
  v.has (checkFlag write) = true ∧ (write = true → ¬v.Guards A b)

/-- The flags one of which `do_pgfault` asks for. -/
def faultFlags (write : Bool) : BitVec 32 := if write then vmWrite else vmRead ||| vmExec

/-- `do_pgfault` lets the access to a byte of the VMA pass. -/
def Vma.Admits (A : Layout) (v : Vma) (write : Bool) (b : ℕ) : Prop :=
  ¬v.Guards A b ∧ v.has (faultFlags write) = true

/-- Some VMA of the address space has the address, and has the property. -/
def Mm.At (mm : Mm) (b : ℕ) (p : Vma → Prop) : Prop :=
  ∃ a ∈ mm.mmapList, (mm.vmas a).Covers b ∧ p (mm.vmas a)

variable {p : Vma → Prop}

/-- There is at most one VMA with the address. -/
lemma Mm.at_iff_of_covers (h : MmInv A mm) (ha : a ∈ mm.mmapList)
    (hab : (mm.vmas a).Covers b) : mm.At b p ↔ p (mm.vmas a) := by
  refine ⟨fun ⟨c, hc, hcb, hp⟩ => ?_, fun hp => ⟨a, ha, hab, hp⟩⟩
  have hfirst := h.spread.firstAbove_eq ha hab.1 hab.2
  rw [h.spread.firstAbove_eq hc hcb.1 hcb.2] at hfirst
  exact Option.some.inj hfirst ▸ hp

lemma Mm.At.mono {q : Vma → Prop} (h : mm.At b p) (hpq : ∀ v, v.Covers b → p v → q v) : mm.At b q := by
  obtain ⟨a, ha, hab, hpa⟩ := h
  exact ⟨a, ha, hab, hpq _ hab hpa⟩

/-- The VMA that `find_vma` returns, if it has the address, and otherwise none has. -/
lemma at_iff_firstAbove (h : MmInv A mm) :
    mm.At b p ↔ ∃ a, firstAbove mm.vmas b mm.mmapList = some a ∧ (mm.vmas a).vmStart ≤ b ∧ p (mm.vmas a) := by
  constructor
  · rintro ⟨a, ha, hab, hpa⟩
    exact ⟨a, h.spread.firstAbove_eq ha hab.1 hab.2, hab.1, hpa⟩
  · rintro ⟨a, hfirst, hstart, hpa⟩
    obtain ⟨hend, l1, l2, hl, -⟩ := firstAbove_eq_some hfirst
    exact ⟨a, by rw [hl]; simp, ⟨hstart, hend⟩, hpa⟩

/-- The number of VMAs that end above an address bounds the turns of the loop. -/
lemma length_filter_lt (hfirst : firstAbove mm.vmas start mm.mmapList = some a) :
    (mm.mmapList.filter fun c => (mm.vmas a).vmEnd < (mm.vmas c).vmEnd).length <
      (mm.mmapList.filter fun c => start < (mm.vmas c).vmEnd).length := by
  obtain ⟨hend, l1, l2, hl, -⟩ := firstAbove_eq_some hfirst
  have hsub : (mm.mmapList.filter fun c => (mm.vmas a).vmEnd < (mm.vmas c).vmEnd) =
      (mm.mmapList.filter fun c => start < (mm.vmas c).vmEnd).filter
        fun c => (mm.vmas a).vmEnd < (mm.vmas c).vmEnd := by
    rw [filter_filter]
    grind
  grind

/-- The loop of `user_mem_check` accepts the range if it accepts every byte of it. -/
lemma userMemCheckLoop_spec (write : Bool) (stop : ℕ) (h : MmInv A mm) (fuel start : ℕ)
    (hfuel : (mm.mmapList.filter fun c => start < (mm.vmas c).vmEnd).length < fuel) :
    ∃ ok cache, userMemCheckLoop A write stop fuel mm start =
        .ok (ok, { mm with mmapCache := cache }) ∧ MmInv A { mm with mmapCache := cache } ∧
      (ok = true ↔ ∀ b, start ≤ b → b < stop → mm.At b (·.Checks A write b)) := by
  induction fuel generalizing mm start with
  | zero => exact absurd hfuel (Nat.not_lt_zero _)
  | succ fuel ih =>
    rw [userMemCheckLoop]
    split_ifs with hlt
    · obtain ⟨cache, hfind, h1⟩ := findVma_spec h start
      rw [hfind, ok_bind]
      -- the byte at `start` decides whether the loop goes on
      have hreject : ¬mm.At start (·.Checks A write start) →
          (false = true ↔ ∀ b, start ≤ b → b < stop → mm.At b (·.Checks A write b)) := by grind
      rw [at_iff_firstAbove h] at hreject
      cases hfirst : firstAbove mm.vmas start mm.mmapList with
      | none =>
        refine ⟨false, cache, rfl, h1, hreject ?_⟩
        grind
      | some a =>
        obtain ⟨hend, l1, l2, hl, -⟩ := firstAbove_eq_some hfirst
        have hmem : a ∈ mm.mmapList := by rw [hl]; simp
        by_cases hok : (mm.vmas a).vmStart ≤ start ∧ (mm.vmas a).Checks A write start
        · obtain ⟨hstart, hflags, hguard⟩ := hok
          have hguard' : ¬(write && (mm.vmas a).has vmStack &&
              decide (start < (mm.vmas a).vmStart + A.pgsize)) = true := by
            simpa [Vma.Guards] using hguard
          dsimp only
          rw [if_neg (not_lt.mpr hstart), if_neg (by simp [hflags]), if_neg hguard']
          obtain ⟨ok, cache', hrun, h2, hiff⟩ := ih h1 (mm.vmas a).vmEnd
            (lt_of_lt_of_le (length_filter_lt hfirst) (Nat.le_of_lt_succ hfuel))
          refine ⟨ok, cache', hrun, h2, hiff.trans ⟨fun hall b hb hb' => ?_,
            fun hall b hb => hall b (hend.le.trans hb)⟩⟩
          by_cases hbe : b < (mm.vmas a).vmEnd
          · -- the checks of the first byte hold for the rest of the VMA
            refine ⟨a, hmem, ⟨hstart.trans hb, hbe⟩, hflags, fun hw hg => hguard hw ⟨hg.1, ?_⟩⟩
            exact lt_of_le_of_lt hb hg.2
          · exact hall b (not_lt.mp hbe) hb'
        · have hno := hreject fun ⟨c, hc, hstart, hchecks⟩ => by grind
          dsimp only
          split_ifs with h1' h2' h3'
          any_goals exact ⟨false, cache, rfl, h1, hno⟩
          refine absurd ⟨not_lt.mp h1', ?_, ?_⟩ hok
          · simpa using h2'
          · simpa [Vma.Guards] using h3'
    · refine ⟨true, mm.mmapCache, rfl, h, iff_of_true rfl fun b hb hb' => ?_⟩
      omega

/-- `user_mem_check` accepts a range in user memory if it accepts every byte of it. -/
lemma userMemCheck_spec (h : MmInv A mm) (addr len : ℕ) (write : Bool) :
    ∃ ok cache, userMemCheck A mm addr len write = .ok (ok, { mm with mmapCache := cache }) ∧
      MmInv A { mm with mmapCache := cache } ∧
      (ok = true ↔ A.UserAccess addr ((addr + len) % 2 ^ A.wordBits) ∧
        ∀ b, addr ≤ b → b < (addr + len) % 2 ^ A.wordBits → mm.At b (·.Checks A write b)) := by
  rw [userMemCheck]
  by_cases haccess : A.UserAccess addr ((addr + len) % 2 ^ A.wordBits)
  · rw [if_neg (not_not.mpr haccess)]
    have hfuel := length_filter_le (fun c => decide (addr < (mm.vmas c).vmEnd)) mm.mmapList
    obtain ⟨ok, cache, hrun, h', hiff⟩ := userMemCheckLoop_spec write
      ((addr + len) % 2 ^ A.wordBits) h mm.fuel addr (by rw [Mm.fuel]; omega)
    exact ⟨ok, cache, hrun, h', by simp [hiff, haccess]⟩
  · rw [if_pos haccess]
    exact ⟨false, mm.mmapCache, rfl, h, by simp [haccess]⟩

/-! ### The handler -/

/-- The error codes of the faults of an access of the kernel. -/
def Kind (write : Bool) (code : ℕ) : Prop := if write then code % 4 = 2 ∨ code % 4 = 3 else code % 4 = 0

lemma Vma.allows_iff (hcode : Kind write code) : v.allows code = v.has (faultFlags write) := by
  rw [Vma.allows]
  cases write with
  | false =>
    have hzero : code % 4 = 0 := hcode
    rw [hzero]
    rfl
  | true =>
    have htwo : code % 4 = 2 ∨ code % 4 = 3 := hcode
    obtain htwo | htwo := htwo <;> rw [htwo] <;> rfl

/-- Memory is available: nothing that allocates fails. -/
structure FaultOps.Plenty (ops : FaultOps P) : Prop where
  getPte : ∀ pages pgdir la, ops.getPte pages pgdir la ≠ none
  allocPage : ∀ pages, (ops.allocPage pages).1 ≠ none
  pgdirAllocPage : ∀ pages pgdir la perm, (ops.pgdirAllocPage pages pgdir la perm).1 = true
  shmemGetEntry : ∀ pages shmem addr r, ops.shmemGetEntry pages shmem addr = some r →
    r.1 ≠ none ∧ r.1 ≠ some .invalid
  swapInPage : ∀ pages entry r, ops.swapInPage pages entry = some r → ∃ page, r.1 = .ok page

/-- The answers of the handler behind the tests: never `-E_INVAL`, and no error at all while memory
is available. -/
def Handled (ops : FaultOps P) (r : Except FaultErr Unit × P) : Prop :=
  r.1 ≠ .error .inval ∧ (ops.Plenty → r.1 = .ok ())

/-- The handler follows a `NULL` pointer only in a shared VMA that has no object. -/
def Vma.Lost (v : Vma) : Prop := v.share = true ∧ v.shmem = none

section Handler

variable {pages : P} {pgdir page : ℕ} {newpage : Option ℕ} {perm cow : Bool} {pte : Pte}

lemma handled_ok (ops : FaultOps P) (pages : P) : Handled ops (.ok (), pages) :=
  ⟨nofun, fun _ => rfl⟩

lemma faultShared_spec (hshare : v.share = true) :
    Ensures (· = .nullPointer → v.Lost) (faultShared A ops pages pgdir v addr perm) (Handled ops) := by
  unfold faultShared
  cases hsh : v.shmem with
  | none => exact fun _ => ⟨hshare, hsh⟩
  | some shmem =>
    dsimp only
    cases hget : ops.shmemGetEntry pages shmem ((addr - v.vmStart + v.shmemOff) % 2 ^ A.wordBits) with
    | none => exact nofun
    | some r =>
      obtain ⟨entry, pages'⟩ := r
      have hplenty := fun h : ops.Plenty => h.shmemGetEntry _ _ _ _ hget
      rw [orPages, ok_bind]
      obtain _ | _ | ⟨page, w⟩ | e := entry
      · exact ⟨nofun, fun h => absurd rfl (hplenty h).1⟩
      · exact ⟨nofun, fun h => absurd rfl (hplenty h).2⟩
      · exact handled_ok ops _
      · cases ops.swapDuplicate pages' 0 with
        | none => exact nofun
        | some pages'' => exact handled_ok ops _

lemma faultCopy_spec {ret : Except FaultErr Unit} (hret : ret ≠ .error .inval)
    (hnew : ops.Plenty → cow = true → newpage ≠ none) :
    Handled ops (faultCopy ops pages pgdir addr page newpage perm cow ret) := by
  unfold faultCopy
  split_ifs with hcow
  · cases newpage with
    | none => exact ⟨hret, fun h => absurd rfl (hnew h (Bool.and_eq_true_iff.mp hcow).1)⟩
    | some new => exact handled_ok ops _
  · exact handled_ok ops _

lemma faultEntry_spec : Ensures (· = .nullPointer → v.Lost)
      (faultEntry ops pages pgdir v code addr perm pte) (Handled ops) := by
  unfold faultEntry
  extract_lets cow write new
  have hnew : ops.Plenty → cow = true → new.1 ≠ none := by
    intro hplenty hcow
    simpa [new, hcow] using hplenty.allocPage pages
  cases pte with
  | invalid => simp
  | present page uWrite =>
    dsimp only
    rw [assert]
    split_ifs
    · exact faultCopy_spec (by simp) hnew
    · intro h
      cases h
  | swap entry =>
    dsimp only
    cases hswap : ops.swapInPage new.2 entry with
    | none =>
      intro h
      cases h
    | some r =>
      obtain ⟨e | page, pages'⟩ := r
      · refine ⟨?_, fun hplenty => ?_⟩
        · cases e <;> intro h <;> cases h
        · obtain ⟨_, ⟨⟩⟩ := hplenty.swapInPage _ _ _ hswap
      · rw [orPages, ok_bind]
        split_ifs
        · exact handled_ok ops _
        · exact faultCopy_spec (by simp) hnew

lemma faultIn_spec (A : Layout) (ops : FaultOps P) (pages : P) (pgdir : ℕ) (v : Vma) (code addr : ℕ) :
    Ensures (· = .nullPointer → v.Lost) (faultIn A ops pages pgdir v code addr) (Handled ops) := by
  unfold faultIn
  cases hget : ops.getPte pages pgdir addr with
  | none => exact ⟨nofun, fun h => absurd hget (h.getPte _ _ _)⟩
  | some pages' =>
    dsimp only
    cases ops.pte pages' pgdir addr with
    | invalid =>
      by_cases hshare : v.share = true
      · grind [faultShared_spec]
      · rw [if_pos (by simpa using hshare)]
        cases hpage : (ops.pgdirAllocPage pages' pgdir addr (v.has vmWrite)).1 with
        | true => exact handled_ok ops _
        | false =>
          refine ⟨nofun, fun hplenty => ?_⟩
          exact nomatch hpage.symm.trans (hplenty.pgdirAllocPage _ _ _ _)
    | present | swap => exact faultEntry_spec

end Handler

/-- `do_pgfault` answers `-E_INVAL` for a byte that no VMA admits, and goes on with the page
otherwise. -/
lemma doPgfault_spec (ops : FaultOps P) (h : MmInv A s.mm) (hcode : Kind write code) (b : ℕ) :
    ∃ cache, MmInv A { s.mm with mmapCache := cache } ∧
      ((¬s.mm.At b (·.Admits A write b) ∧ doPgfault A ops s code b =
          .ok (.error .inval, { s with mm := { s.mm with mmapCache := cache } })) ∨
      ∃ a ∈ s.mm.mmapList, (s.mm.vmas a).Covers b ∧ (s.mm.vmas a).Admits A write b ∧
        doPgfault A ops s code b = (do
          let r ← faultIn A ops s.kernel.pages s.mm.pgdir (s.mm.vmas a) code (A.roundDown b)
          return (r.1, ⟨{ s.kernel with pages := r.2 }, { s.mm with mmapCache := cache }⟩))) := by
  obtain ⟨cache, hfind, h1⟩ := findVma_spec h b
  refine ⟨cache, h1, ?_⟩
  rw [doPgfault, hfind, ok_bind, at_iff_firstAbove h]
  cases hfirst : firstAbove s.mm.vmas b s.mm.mmapList with
  | none => exact .inl ⟨fun ⟨a, ha, _, _⟩ => (nomatch ha), rfl⟩
  | some a =>
    obtain ⟨hend, l1, l2, hl, -⟩ := firstAbove_eq_some hfirst
    dsimp only
    rw [Vma.allows_iff hcode]
    by_cases hok : (s.mm.vmas a).vmStart ≤ b ∧ (s.mm.vmas a).Admits A write b
    · obtain ⟨hstart, hguard, hflags⟩ := hok
      refine .inr ⟨a, by rw [hl]; simp, ⟨hstart, hend⟩, ⟨hguard, hflags⟩, ?_⟩
      grind [Vma.Guards]
    · left
      constructor
      · grind
      · split_ifs with h1' h2' h3'
        · rfl
        · rfl
        · rfl
        · refine absurd ⟨not_lt.mp h1', ?_, ?_⟩ hok
          · simpa [Vma.Guards] using h2'
          · simpa using h3'

/-- `do_pgfault` answers `-E_INVAL` exactly for the bytes that no VMA admits. -/
lemma doPgfault_inval_iff (ops : FaultOps P) (h : MmInv A s.mm) (hcode : Kind write code) (b : ℕ) :
    (∃ s', doPgfault A ops s code b = .ok (.error .inval, s')) ↔ ¬s.mm.At b (·.Admits A write b) := by
  obtain ⟨cache, -, ⟨hno, hrun⟩ | ⟨a, ha, hab, hadmits, hrun⟩⟩ := doPgfault_spec ops h hcode b
  · exact iff_of_true ⟨_, hrun⟩ hno
  · refine iff_of_false ?_ (not_not.mpr ⟨a, ha, hab, hadmits⟩)
    rintro ⟨s', hs'⟩
    have hin := faultIn_spec A ops s.kernel.pages s.mm.pgdir (s.mm.vmas a) code (A.roundDown b)
    rw [hrun] at hs'
    cases hfault : faultIn A ops s.kernel.pages s.mm.pgdir (s.mm.vmas a) code (A.roundDown b) with
    | error e => exact nomatch hfault ▸ hs'
    | ok r =>
      rw [hfault] at hin hs'
      exact hin.1 (congrArg Prod.fst (Except.ok.inj hs'))

lemma Vma.has_or (x y : BitVec 32) : v.has (x ||| y) = (v.has x || v.has y) := by grind [Vma.has]

/-- The rule of the check against the rule of the handler. -/
lemma Vma.Checks.admits_iff (h : v.Checks A write b) : v.Admits A write b ↔ write = true ∨ ¬v.Guards A b := by
  obtain ⟨hflags, hguard⟩ := h
  cases write with
  | true => exact iff_of_true ⟨hguard rfl, hflags⟩ (.inl rfl)
  | false =>
    have hread : v.has (faultFlags false) = true := by
      rw [faultFlags, if_neg Bool.false_ne_true, Vma.has_or, Bool.or_eq_true]
      exact .inl hflags
    simp [Vma.Admits, hread]

/-! ### The accesses of the kernel -/

lemma kind_of_faultCode (pte : Pte) (h : faultCode write pte = some code) : Kind write code := by
  unfold faultCode at h
  cases write <;> cases pte <;> grind [Kind]

/-- The handler can serve the access: a VMA admits it, and has an object if it is shared. -/
def Mm.Serves (A : Layout) (mm : Mm) (write : Bool) (b : ℕ) : Prop :=
  mm.At b fun v => v.Admits A write b ∧ ¬v.Lost

/-- Only the cache of the address space has changed. -/
def Cached (A : Layout) (mm mm' : Mm) : Prop :=
  ∃ cache, mm' = { mm with mmapCache := cache } ∧ MmInv A mm'

lemma Cached.trans {mm'' : Mm} (h : Cached A mm mm') (h' : Cached A mm' mm'') : Cached A mm mm'' := by
  obtain ⟨cache, rfl, -⟩ := h
  obtain ⟨cache', rfl, hinv⟩ := h'
  exact ⟨cache', rfl, hinv⟩

lemma Cached.at_iff (h : Cached A mm mm') : mm'.At b p ↔ mm.At b p := by
  obtain ⟨cache, rfl, -⟩ := h
  rfl

/-- A fault of the kernel on a byte that the handler can serve. -/
lemma kernelFault_ensures (hplenty : ops.Plenty) (h : MmInv A s.mm) (hcode : Kind write code)
    (hserves : s.mm.Serves A write b) : Ensures (fun e => ∃ e', e = .stop e') (kernelFault A ops s code b)
      fun s' => Cached A s.mm s'.mm := by
  obtain ⟨cache, h1, ⟨hno, -⟩ | ⟨a, ha, hab, -, hrun⟩⟩ := doPgfault_spec ops h hcode b
  · exact absurd (hserves.mono fun v _ hv => hv.1) hno
  · have hlost : ¬(s.mm.vmas a).Lost := ((Mm.at_iff_of_covers h ha hab).mp hserves).2
    rw [kernelFault, hrun]
    have hin := faultIn_spec A ops s.kernel.pages s.mm.pgdir (s.mm.vmas a) code (A.roundDown b)
    cases hfault : faultIn A ops s.kernel.pages s.mm.pgdir (s.mm.vmas a) code (A.roundDown b) with
    | error e =>
      rw [hfault] at hin
      cases e with
      | nullPointer => exact absurd (hin rfl) hlost
      | assertion | pages => exact ⟨_, rfl⟩
    | ok r =>
      rw [hfault] at hin
      obtain ⟨ret, pages⟩ := r
      obtain rfl := hin.2 hplenty
      exact ⟨cache, rfl, h1⟩

/-- An access to a byte that the handler can serve. -/
lemma touch_ensures (hplenty : ops.Plenty) (faults : ℕ) (h : MmInv A s.mm) (hserves : s.mm.Serves A write b) :
    Ensures (fun e => ∃ e', e = .stop e') (touch A ops write b faults s) fun s' => Cached A s.mm s'.mm := by
  induction faults generalizing s with
  | zero => exact ⟨_, rfl, h⟩
  | succ faults ih =>
    rw [touch]
    cases hcode : faultCode write (ops.pte s.kernel.pages s.mm.pgdir (A.roundDown b)) with
    | none => exact ⟨_, rfl, h⟩
    | some code =>
      refine (kernelFault_ensures hplenty h (kind_of_faultCode _ hcode) hserves).bind fun s1 hs1 => ?_
      have hinv : MmInv A s1.mm := hs1.choose_spec.2
      exact (ih hinv (hs1.at_iff.mpr hserves)).mono fun _ hs2 => hs1.trans hs2

/-- Accesses to a range of such bytes. -/
lemma touchRange_ensures (hplenty : ops.Plenty) (faults addr len : ℕ) (h : MmInv A s.mm)
    (hserves : ∀ b, addr ≤ b → b < addr + len → s.mm.Serves A write b) :
    Ensures (fun e => ∃ e', e = .stop e') (touchRange A ops write faults addr len s)
      fun s' => Cached A s.mm s'.mm := by
  induction len generalizing addr s with
  | zero => exact ⟨_, rfl, h⟩
  | succ len ih =>
    rw [touchRange]
    refine (touch_ensures hplenty faults h (hserves addr le_rfl (by omega))).bind fun s1 hs1 => ?_
    have hinv : MmInv A s1.mm := hs1.choose_spec.2
    refine (ih (addr + 1) hinv fun b _ _ => ?_).mono fun _ hs2 => hs1.trans hs2
    exact hs1.at_iff.mpr (hserves b (by omega) (by omega))

/-! ### Page tables that stay empty -/

/-- Page tables in which no entry is ever in use, with memory for every request. -/
def barePages (P : Type) : FaultOps P where
  getPte pages _ _ := some pages
  pte _ _ _ := .invalid
  setPte pages _ _ _ := pages
  allocPage pages := (some 0, pages)
  freePage pages _ := pages
  pgdirAllocPage pages _ _ _ := (true, pages)
  pageInsert pages _ _ _ _ := pages
  shmemGetEntry pages _ _ := some (some (.present 0 true), pages)
  swapDuplicate pages _ := some pages
  swapInPage pages _ := some (.ok 0, pages)
  pageCount _ _ := 0
  copyPage pages _ _ := pages

lemma barePages_plenty : (barePages P).Plenty where
  getPte := nofun
  allocPage := nofun
  pgdirAllocPage _ _ _ _ := rfl
  shmemGetEntry := by
    rintro pages shmem addr r hr
    cases hr
    exact ⟨nofun, nofun⟩
  swapInPage := by
    rintro pages entry r hr
    cases hr
    exact ⟨0, rfl⟩

/-- Behind the tests, the handler fails only on a VMA without its object. -/
lemma faultIn_barePages (A : Layout) (pages : P) (pgdir : ℕ) (v : Vma) (code addr : ℕ) :
    (v.Lost ∧ faultIn A (barePages P) pages pgdir v code addr = .error .nullPointer) ∨
      (¬v.Lost ∧ faultIn A (barePages P) pages pgdir v code addr = .ok (.ok (), pages)) := by
  rw [Vma.Lost]
  cases hshare : v.share with
  | false =>
    refine .inr ⟨nofun, ?_⟩
    simp [faultIn, barePages, hshare]
  | true =>
    cases hshmem : v.shmem with
    | none => exact .inl ⟨⟨rfl, rfl⟩, by simp [faultIn, faultShared, barePages, hshare, hshmem]⟩
    | some shmem =>
      refine .inr ⟨fun h => (nomatch h.2), ?_⟩
      simp [faultIn, faultShared, barePages, hshare, hshmem, orPages]

/-- A fault of the kernel, which ends in the panic if the handler cannot serve it. -/
lemma kernelFault_barePages (h : MmInv A s.mm) (hcode : Kind write code) (b : ℕ) :
    (s.mm.Serves A write b ∧ ∃ s', kernelFault A (barePages P) s code b = .ok s' ∧ Cached A s.mm s'.mm) ∨
      (¬s.mm.Serves A write b ∧ kernelFault A (barePages P) s code b = .error (.pgfault .inval)) := by
  obtain ⟨cache, h1, ⟨hno, hrun⟩ | ⟨a, ha, hab, hadmits, hrun⟩⟩ :=
    doPgfault_spec (barePages P) h hcode b
  · refine .inr ⟨fun hserves => hno (hserves.mono fun v _ hv => hv.1), ?_⟩
    rw [kernelFault, hrun]
  · rw [Mm.Serves, Mm.at_iff_of_covers h ha hab, kernelFault, hrun]
    obtain ⟨hlost, hin⟩ | ⟨hlost, hin⟩ := faultIn_barePages A s.kernel.pages s.mm.pgdir
      (s.mm.vmas a) code (A.roundDown b)
    · refine .inr ⟨fun hv => hv.2 hlost, ?_⟩
      rw [hin]
      rfl
    · refine .inl ⟨⟨hadmits, hlost⟩, { s with mm := { s.mm with mmapCache := cache } }, ?_, cache, rfl, h1⟩
      rw [hin]
      rfl

/-- Accesses to a range with a byte that the handler cannot serve end in the panic. -/
lemma touchRange_barePages (addr len : ℕ) (h : MmInv A s.mm) (hb : addr ≤ b) (hb' : b < addr + len)
    (hno : ¬s.mm.Serves A write b) :
    touchRange A (barePages P) write 1 addr len s = .error (.pgfault .inval) := by
  induction len generalizing addr s with
  | zero => omega
  | succ len ih =>
    have hcode : Kind write (if write then 2 else 0) := kind_of_faultCode .invalid rfl
    have htouch : touch A (barePages P) write addr 1 s =
        (kernelFault A (barePages P) s (if write then 2 else 0) addr >>= fun s' => .ok s') := rfl
    rw [touchRange, htouch]
    obtain ⟨hserves, s1, hrun, hs1⟩ | ⟨-, hrun⟩ := kernelFault_barePages h hcode addr
    · rw [hrun]
      have hne : b ≠ addr := fun heq => hno (heq ▸ hserves)
      exact ih (addr + 1) hs1.choose_spec.2 (by omega) (by omega) (mt hs1.at_iff.mp hno)
    · rw [hrun]
      rfl

/-- A copy behind a check that has passed reaches the panic for no page tables with memory
available if the handler can serve every byte. -/
lemma copyUser_iff {checkWrite : Bool} (hmm' : Cached A s.mm mm')
    (hcheck : userMemCheck A s.mm addr len checkWrite = .ok (true, mm')) : (∀ ops, ops.Plenty → ∀ faults e,
        copyUser A ops faults checkWrite write s addr len ≠ .error (.pgfault e)) ↔
      ∀ b, addr ≤ b → b < addr + len → s.mm.Serves A write b := by
  constructor
  · intro hcopy b hb hb'
    by_contra hno
    refine hcopy (barePages P) barePages_plenty 1 .inval ?_
    rw [copyUser, hcheck]
    dsimp only
    rw [touchRange_barePages (s := { s with mm := mm' }) addr len hmm'.choose_spec.2 hb hb' (mt hmm'.at_iff.mp hno)]
    rfl
  · intro hserves ops hplenty faults e
    rw [copyUser, hcheck]
    dsimp only
    have htouch := touchRange_ensures (s := { s with mm := mm' }) hplenty faults addr len
      hmm'.choose_spec.2 fun b hb hb' => hmm'.at_iff.mpr (hserves b hb hb')
    cases hrun : touchRange A ops write faults addr len { s with mm := mm' } with
    | ok s' => exact nofun
    | error e' =>
      rw [hrun] at htouch
      obtain ⟨e'', rfl⟩ := htouch
      exact nofun

/-- What a passed check says of each byte of the range. -/
lemma checks_of_userMemCheck (h : MmInv A mm) (hlen : len < 2 ^ A.wordBits)
    (hcheck : userMemCheck A mm addr len write = .ok (true, mm')) :
    Cached A mm mm' ∧ ∀ b, addr ≤ b → b < addr + len → mm.At b (·.Checks A write b) := by
  obtain ⟨ok, cache, hrun, h', hiff⟩ := userMemCheck_spec h addr len write
  cases hrun.symm.trans hcheck
  obtain ⟨haccess, hall⟩ := hiff.mp rfl
  refine ⟨⟨cache, rfl, h'⟩, fun b hb _ => hall b hb ?_⟩
  -- the end of the range does not wrap around, as it is above the start
  rw [Layout.UserAccess] at haccess
  have hlt : addr + len < 2 ^ A.wordBits := by
    by_contra hge
    have hmod := (Nat.mod_eq_sub_mod (not_lt.mp hge)).trans (Nat.mod_eq_of_lt (by omega))
    omega
  rwa [Nat.mod_eq_of_lt hlt]

/-- **Checked user access.**  A port, an address space that any sequence of calls has reached, and a
range for which `user_mem_check` has succeeded.

* No matching fault on a byte of the range is answered `-E_INVAL`, exactly if the check was for
  writing or no byte of the range is in the lowest page of a stack.
* `copy_from_user` reaches the panic of a page fault in kernel mode for no page tables with memory
  available, exactly if no byte of the range is in the lowest page of a stack, each is in a VMA that
  can be read or executed, and none in a shared VMA without an object.
* `copy_to_user` reaches it for no such page tables, exactly if no byte of the range is in a shared
  VMA without an object. -/
theorem checked_access_not_rejected_iff (A : Layout) (pops : PageOps P) (K : Kmalloc)
    (kernel : Kernel P) (calls : List Op) (σ : System P)
    (hrun : run A pops K ⟨kernel, fun _ => none⟩ calls = .ok σ) (a : ℕ) (mm mm' : Mm)
    (hmm : σ.mms a = some mm) (addr len : ℕ) (hlen : len < 2 ^ A.wordBits) (write : Bool)
    (hcheck : userMemCheck A mm addr len write = .ok (true, mm')) :
    ((∀ (ops : FaultOps P) (b code : ℕ), addr ≤ b → b < addr + len → Kind write code →
        ∀ s', doPgfault A ops ⟨σ.kernel, mm'⟩ code b ≠ .ok (.error .inval, s')) ↔
      write = true ∨ ∀ b, addr ≤ b → b < addr + len → ¬mm.At b (·.Guards A b)) ∧
    ((∀ ops : FaultOps P, ops.Plenty → ∀ faults e,
        copyFromUser A ops faults ⟨σ.kernel, mm⟩ addr len write ≠ .error (.pgfault e)) ↔
      ∀ b, addr ≤ b → b < addr + len → ¬mm.At b (·.Guards A b) ∧
        mm.At b (·.has (vmRead ||| vmExec) = true) ∧ ¬mm.At b Vma.Lost) ∧
    (write = true → ((∀ ops : FaultOps P, ops.Plenty → ∀ faults e,
        copyToUser A ops faults ⟨σ.kernel, mm⟩ addr len ≠ .error (.pgfault e)) ↔
      ∀ b, addr ≤ b → b < addr + len → ¬mm.At b Vma.Lost)) := by
  have hinv : MmInv A mm := by grind [SysInv, Ensures, run_ensures]
  obtain ⟨hcached, hchecks⟩ := checks_of_userMemCheck hinv hlen hcheck
  refine ⟨?_, ?_, ?_⟩
  · have hinv' : MmInv A mm' := hcached.choose_spec.2
    constructor
    · intro hfault
      by_contra hbad
      obtain ⟨hw, hguard⟩ := not_or.mp hbad
      push Not at hguard
      obtain ⟨b, hb, hb', hat⟩ := hguard
      obtain ⟨v, hv, hvb, hc⟩ := hchecks b hb hb'
      rw [Mm.at_iff_of_covers hinv hv hvb] at hat
      have hcode : Kind write (if write then 2 else 0) := kind_of_faultCode .invalid rfl
      obtain ⟨s', hs'⟩ := (doPgfault_inval_iff (s := ⟨σ.kernel, mm'⟩) (barePages P) hinv' hcode b).mpr
        (by
          rw [hcached.at_iff, Mm.at_iff_of_covers hinv hv hvb, hc.admits_iff]
          exact not_or.mpr ⟨hw, not_not.mpr hat⟩)
      exact hfault _ b _ hb hb' hcode s' hs'
    · intro hgood ops b code hb hb' hcode s' hs'
      refine (doPgfault_inval_iff ops hinv' hcode b).mp ⟨s', hs'⟩ ?_
      obtain ⟨v, hv, hvb, hc⟩ := hchecks b hb hb'
      rw [hcached.at_iff, Mm.at_iff_of_covers hinv hv hvb, hc.admits_iff]
      exact hgood.imp_right fun hg hguards => hg b hb hb' ⟨v, hv, hvb, hguards⟩
  · simp only [copyFromUser]
    rw [copyUser_iff hcached hcheck]
    refine forall₃_congr fun b hb hb' => ?_
    obtain ⟨v, hv, hvb, -⟩ := hchecks b hb hb'
    rw [Mm.Serves]
    simp only [Mm.at_iff_of_covers hinv hv hvb]
    rw [Vma.Admits, and_assoc]
    rfl
  · rintro rfl
    simp only [copyToUser]
    rw [copyUser_iff hcached hcheck]
    refine forall₃_congr fun b hb hb' => ?_
    obtain ⟨v, hv, hvb, hc⟩ := hchecks b hb hb'
    rw [Mm.Serves]
    simp only [Mm.at_iff_of_covers hinv hv hvb]
    exact and_iff_right (hc.admits_iff.mpr (.inl rfl))

/-- An address space with a stack of three pages. -/
def stackCalls : List Op :=
  [.mmCreate 7 0 (fun _ => ⟨0, 0, 0, 0, none, 0⟩) (fun _ => ⟨false, 0, 0, 0⟩),
   .mmMap 7 0x800000 0x3000 (vmRead ||| vmWrite ||| vmStack)]

/-- What `stackCalls` reaches, on a port where the pages never stop the kernel. -/
def stackRun : Except Stop (System Unit) :=
  run Layout.i386 ⟨fun p _ _ _ => some p, fun p _ _ _ _ _ => some (true, p), fun p _ => some p⟩
    bumpKmalloc ⟨⟨0, fun _ => ⟨0, 0⟩, ()⟩, fun _ => none⟩ stackCalls

/-- A read of the second page of the stack: `copy_from_user` does not panic. -/
theorem checked_access_not_rejected_iff_second_page : ∃ σ mm mm', stackRun = .ok σ ∧ σ.mms 7 = some mm ∧
      userMemCheck Layout.i386 mm 0x801000 16 false = .ok (true, mm') ∧
      ∀ ops : FaultOps Unit, ops.Plenty → ∀ faults e,
        copyFromUser Layout.i386 ops faults ⟨σ.kernel, mm⟩ 0x801000 16 false ≠
          .error (.pgfault e) := by
  have hmm : (stackRun.toOption.bind fun σ => (σ.mms 7).map fun mm =>
      ((mm.mmapList.map fun a => ((mm.vmas a).vmStart, (mm.vmas a).vmEnd, (mm.vmas a).vmFlags)),
        (userMemCheck i386 mm 0x801000 16 false).toOption.map Prod.fst)) =
      some ([(0x800000, 0x803000, 11)], some true) := by decide +kernel
  obtain ⟨σ, hrun, hmap⟩ := exists_ok_of_bind hmm
  obtain ⟨mm, hmm, hlist⟩ := Option.map_eq_some_iff.mp hmap
  obtain ⟨hlist, hcheck⟩ := Prod.mk.inj hlist
  obtain ⟨⟨ok, mm'⟩, hok, rfl⟩ := exists_ok_of_map hcheck
  refine ⟨σ, mm, mm', hrun, hmm, hok, (checked_access_not_rejected_iff _ _ _ _ _ σ hrun 7 mm mm' hmm
    _ _ (by decide) false hok).2.1.mpr fun b hb _ => ?_⟩
  obtain ⟨a, ha, hvma⟩ := map_eq_singleton_iff.mp hlist
  simp only [Prod.mk.injEq] at hvma
  obtain ⟨hstart, hend, hflags⟩ := hvma
  refine ⟨?_, ⟨a, by simp [ha], ⟨by omega, by omega⟩, ?_⟩, ?_⟩
  · rintro ⟨c, hc, -, -, hguard⟩
    obtain rfl : c = a := by simpa [ha] using hc
    rw [hstart] at hguard
    exact absurd hguard (not_lt.mpr hb)
  · simp only [Vma.has, hflags]
    decide
  · rintro ⟨c, hc, -, hshare, -⟩
    obtain rfl : c = a := by simpa [ha] using hc
    rw [Vma.share, hflags] at hshare
    exact absurd hshare (by decide)

/-- The lowest page of the stack: the check for reading succeeds, a read of the kernel is answered
`-E_INVAL`, and `copy_from_user` panics although memory is available. -/
theorem checked_read_panics_in_lowest_page : ∃ σ mm mm', stackRun = .ok σ ∧ σ.mms 7 = some mm ∧
      userMemCheck Layout.i386 mm 0x800000 16 false = .ok (true, mm') ∧
      (∃ s', doPgfault Layout.i386 (barePages Unit) ⟨σ.kernel, mm'⟩ 0 0x800000 =
        .ok (.error .inval, s')) ∧
      (barePages Unit).Plenty ∧
      copyFromUser Layout.i386 (barePages Unit) 1 ⟨σ.kernel, mm⟩ 0x800000 16 false =
        .error (.pgfault .inval) := by
  have hmm : (stackRun.toOption.bind fun σ => (σ.mms 7).bind fun mm =>
      (userMemCheck i386 mm 0x800000 16 false).toOption.map fun r => (r.1,
        (doPgfault i386 (barePages Unit) ⟨σ.kernel, r.2⟩ 0 0x800000).toOption.map Prod.fst,
        (copyFromUser i386 (barePages Unit) 1 ⟨σ.kernel, mm⟩ 0x800000 16 false).map fun _ => ())) =
      some (true, some (.error .inval), .error (.pgfault .inval)) := by decide +kernel
  obtain ⟨σ, hσ, hmap⟩ := exists_ok_of_bind hmm
  obtain ⟨mm, hmm, hmap⟩ := Option.bind_eq_some_iff.mp hmap
  obtain ⟨⟨ok, mm'⟩, hcheck, hvalues⟩ := exists_ok_of_map hmap
  simp only [Prod.mk.injEq] at hvalues
  obtain ⟨rfl, hfault, hcopy⟩ := hvalues
  obtain ⟨⟨ret, s'⟩, hfault, rfl⟩ := exists_ok_of_map hfault
  refine ⟨σ, mm, mm', hσ, hmm, hcheck, ⟨s', hfault⟩, barePages_plenty, ?_⟩
  cases hrun : copyFromUser i386 (barePages Unit) 1 ⟨σ.kernel, mm⟩ 0x800000 16 false with
  | ok r => exact nomatch hrun ▸ hcopy
  | error e =>
    rw [hrun] at hcopy
    exact congrArg _ (Except.error.inj hcopy)

end UcoreKernel.Vmm
