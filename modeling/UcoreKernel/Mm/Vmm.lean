import UcoreKernel.Lib.Except
import UcoreKernel.Libs.LinkedList
import UcoreKernel.Libs.RbTree

/-!
`kern-ucore/mm/vmm.c`: the virtual memory areas (VMAs) of an address space.

The VMA structures of an address space, and their `rb_link` nodes, are named by their addresses
and kept in a memory of their own. What the file calls in `pmm.c` and `shmem.c` is given by
`PageOps`, over any type of page tables. `kmalloc` may fail at any call, and hands out any block
that is not in use. A call that does not return is an error of type `Stop`.

Left out are `mm_destroy`, `exit_mmap` and the locks: an address space lives throughout, and a
call is one step.
-/

namespace UcoreKernel.Vmm

open Function

open Rb (RbTree Heap)
open LinkedList

/-- The constants of a port: the width of `uintptr_t`, `PGSIZE`, `USERBASE` and `USERTOP`. -/
structure Layout where
  wordBits : ℕ
  pgsize : ℕ
  userBase : ℕ
  userTop : ℕ
  pgsize_pos : 0 < pgsize
  userBase_pos : 0 < userBase
  userTop_le : userTop + pgsize ≤ 2 ^ wordBits

/-- The port to the i386. -/
def Layout.i386 : Layout := ⟨32, 4096, 0x200000, 0xB0000000, by decide, by decide, by decide⟩

namespace Layout

variable (A : Layout)

/-- `ROUNDDOWN (a, PGSIZE)`. -/
def roundDown (a : ℕ) : ℕ := a - a % A.pgsize

/-- `ROUNDUP (a, PGSIZE)`. -/
def roundUp (a : ℕ) : ℕ := A.roundDown ((a + A.pgsize - 1) % 2 ^ A.wordBits)

/-- The end of a range of `len` bytes, rounded up: `ROUNDUP (addr + len, PGSIZE)`. -/
def rangeEnd (addr len : ℕ) : ℕ := A.roundUp ((addr + len) % 2 ^ A.wordBits)

/-- `USER_ACCESS`. -/
def UserAccess (start stop : ℕ) : Prop := A.userBase ≤ start ∧ start < stop ∧ stop ≤ A.userTop

instance (start stop : ℕ) : Decidable (A.UserAccess start stop) :=
  inferInstanceAs (Decidable (_ ∧ _ ∧ _))

end Layout

/-! ### Data -/

/-- `VM_READ`. -/
def vmRead : BitVec 32 := 0x1

/-- `VM_WRITE`. -/
def vmWrite : BitVec 32 := 0x2

/-- `VM_EXEC`. -/
def vmExec : BitVec 32 := 0x4

/-- `VM_STACK`. -/
def vmStack : BitVec 32 := 0x8

/-- `VM_SHARE`. -/
def vmShare : BitVec 32 := 0x10

/-- `RB_MIN_MAP_COUNT`. -/
def rbMinMapCount : ℤ := 32

/-- `struct vma_struct`; `rb_link` is in `Mm.links`, and `list_link` is the place in a list. -/
structure Vma where
  vmMm : ℕ
  vmStart : ℕ
  vmEnd : ℕ
  vmFlags : BitVec 32
  shmem : Option ℕ
  shmemOff : ℕ
  deriving DecidableEq, Repr

/-- `vma->vm_flags & VM_SHARE`. -/
def Vma.share (v : Vma) : Bool := v.vmFlags &&& vmShare ≠ 0

/-- `struct mm_struct`, at the address `self`, with the memory of its VMAs. `blocks` are the
blocks that `kmalloc` has handed out for it. -/
structure Mm where
  self : ℕ
  mmapList : List ℕ
  mmapTree : Option RbTree
  mmapCache : Option ℕ
  mapCount : ℤ
  pgdir : ℕ
  vmas : ℕ → Vma
  links : Heap
  blocks : Finset ℕ

/-- The fields of `struct shmem_struct` that this file reads. -/
structure Shmem where
  len : ℕ
  shmemRef : ℤ
  deriving DecidableEq, Repr

/-- What this file calls in other files, on page tables of type `P`: `unmap_range` and
`copy_range`, which name a page table by its `pgdir`, and `shmem_destroy`. `none` stands for a
call that does not return. -/
structure PageOps (P : Type) where
  unmapRange : P → (pgdir start stop : ℕ) → Option P
  copyRange : P → (target source start stop : ℕ) → (share : Bool) → Option (Bool × P)
  shmemDestroy : P → (shmem : ℕ) → Option P

/-- An allocator: the answer to each call of `kmalloc`, which may depend on the blocks in use and
is not one of them. -/
structure Kmalloc where
  pick : (call : ℕ) → (blocks : Finset ℕ) → Option ℕ
  fresh : ∀ {call blocks a}, pick call blocks = some a → a ∉ blocks

/-- The state outside the address spaces. -/
structure Kernel (P : Type) where
  kmallocs : ℕ
  shmems : ℕ → Shmem
  pages : P

/-- What a call works on. -/
structure St (P : Type) where
  kernel : Kernel P
  mm : Mm

/-- Why a call does not return: an assertion of this file fails or a loop of it does not end, a
`NULL` pointer is followed, or a call into another file does not return. -/
inductive Stop where
  | assertion
  | nullPointer
  | pages
  deriving DecidableEq, Repr

/-- `-E_INVAL` and `-E_NO_MEM`. -/
inductive Errno where
  | inval
  | noMem
  deriving DecidableEq, Repr

/-- `assert`. -/
def assert (p : Prop) [Decidable p] : Except Stop Unit :=
  if p then .ok () else .error .assertion

/-- A result of `rb_tree.c`. -/
def orAssertion {α : Type} : Option α → Except Stop α
  | some a => .ok a
  | none => .error .assertion

/-- A result of another file. -/
def orPages {α : Type} : Option α → Except Stop α
  | some a => .ok a
  | none => .error .pages

variable {P : Type} (A : Layout) (ops : PageOps P) (K : Kmalloc)

/-- `kmalloc`. -/
def kmalloc (s : St P) : Option ℕ × St P :=
  let kernel := { s.kernel with kmallocs := s.kernel.kmallocs + 1 }
  match K.pick s.kernel.kmallocs s.mm.blocks with
  | some a => (some a, ⟨kernel, { s.mm with blocks := insert a s.mm.blocks }⟩)
  | none => (none, ⟨kernel, s.mm⟩)

/-- `kfree`. -/
def kfree (s : St P) (a : ℕ) : St P :=
  { s with mm := { s.mm with blocks := s.mm.blocks.erase a } }

/-- An assignment to the fields of a VMA. -/
def Mm.setVma (mm : Mm) (vma : ℕ) (v : Vma) : Mm :=
  { mm with vmas := update mm.vmas vma v }

/-- `shmem_ref_inc` and `shmem_ref_dec`. -/
def shmemRefAdd (s : St P) (shmem : ℕ) (d : ℤ) : St P :=
  let sh := s.kernel.shmems shmem
  { s with kernel := { s.kernel with
      shmems := update s.kernel.shmems shmem { sh with shmemRef := sh.shmemRef + d } } }

/-- `vma_create`. -/
def vmaCreate (s : St P) (vmStart vmEnd : ℕ) (vmFlags : BitVec 32) : Option ℕ × St P :=
  match kmalloc K s with
  | (some a, s) =>
    let v : Vma := ⟨(s.mm.vmas a).vmMm, vmStart, vmEnd, vmFlags, none, 0⟩
    (some a, { s with mm := s.mm.setVma a v })
  | (none, s) => (none, s)

/-- `shmem_destroy`. -/
def shmemDestroy (s : St P) (shmem : ℕ) : Except Stop (St P) := do
  let pages ← orPages (ops.shmemDestroy s.kernel.pages shmem)
  return { s with kernel := { s.kernel with pages := pages } }

/-- The part `if (vma->vm_flags & VM_SHARE)` of `vma_destroy`. -/
def vmaDestroyShmem (s : St P) (v : Vma) : Except Stop (St P) :=
  if v.share then
    match v.shmem with
    | none => .error .nullPointer
    | some shmem =>
      let s := shmemRefAdd s shmem (-1)
      if (s.kernel.shmems shmem).shmemRef = 0 then shmemDestroy ops s shmem else .ok s
  else .ok s

/-- `vma_destroy`. -/
def vmaDestroy (s : St P) (vma : ℕ) : Except Stop (St P) := do
  let s ← vmaDestroyShmem ops s (s.mm.vmas vma)
  return kfree s vma

/-- A bound for the walks in the tree: the number of VMAs, with the one that goes in and the
ends. -/
def Mm.fuel (mm : Mm) : ℕ := mm.mmapList.length + 3

/-! ### `find_vma` -/

/-- The loop of `find_vma_rb`. -/
def findVmaRbLoop (T : RbTree) (links : Heap) (vmas : ℕ → Vma) (addr : ℕ) :
    ℕ → Option ℕ → Option ℕ → Option (Option ℕ)
  | 0, _, _ => none
  | _ + 1, none, vma => some vma
  | fuel + 1, some node, vma =>
    if (vmas node).vmEnd > addr then
      if (vmas node).vmStart ≤ addr then some (some node)
      else findVmaRbLoop T links vmas addr fuel (Rb.rbNodeLeft T links node) (some node)
    else findVmaRbLoop T links vmas addr fuel (Rb.rbNodeRight T links node) vma

/-- `find_vma_rb`. -/
def findVmaRb (mm : Mm) (T : RbTree) (addr : ℕ) : Except Stop (Option ℕ) :=
  orAssertion (findVmaRbLoop T mm.links mm.vmas addr mm.fuel (Rb.rbNodeRoot T mm.links) none)

/-- The walk along the list in `find_vma`. -/
def findVmaList (vmas : ℕ → Vma) (addr : ℕ) : List ℕ → Option ℕ
  | [] => none
  | vma :: l => if addr < (vmas vma).vmEnd then some vma else findVmaList vmas addr l

/-- The VMA in the cache, if it has the address. -/
def findVmaCache (mm : Mm) (addr : ℕ) : Option ℕ :=
  match mm.mmapCache with
  | some vma =>
    if (mm.vmas vma).vmStart ≤ addr ∧ (mm.vmas vma).vmEnd > addr then some vma else none
  | none => none

/-- The search behind the cache. -/
def findVmaSlow (mm : Mm) (addr : ℕ) : Except Stop (Option ℕ) :=
  match mm.mmapTree with
  | some T => findVmaRb mm T addr
  | none => .ok (findVmaList mm.vmas addr mm.mmapList)

/-- `find_vma`; returns the VMA, and the address space with its cache. -/
def findVma (mm : Mm) (addr : ℕ) : Except Stop (Option ℕ × Mm) :=
  match findVmaCache mm addr with
  | some vma => .ok (some vma, { mm with mmapCache := some vma })
  | none => do
      let vma ← findVmaSlow mm addr
      return (vma, if vma ≠ none then { mm with mmapCache := vma } else mm)

/-! ### `insert_vma_struct` and `remove_vma_struct` -/

/-- `vma_compare`. -/
def vmaCompare (vmas : ℕ → Vma) (vma₁ vma₂ : ℕ) : ℤ :=
  if (vmas vma₁).vmStart < (vmas vma₂).vmStart then -1
  else if (vmas vma₁).vmStart > (vmas vma₂).vmStart then 1
  else 0

/-- `check_vma_overlap`. -/
def checkVmaOverlap (prev next : Vma) : Except Stop Unit := do
  assert (prev.vmStart < prev.vmEnd)
  assert (prev.vmEnd ≤ next.vmStart)
  assert (next.vmStart < next.vmEnd)

/-- `insert_vma_rb`, without `vma_prevp`. -/
def insertVmaRb (mm : Mm) (T : RbTree) (vma : ℕ) : Except Stop Mm := do
  let links ← orAssertion (Rb.rbInsert T mm.fuel (vmaCompare mm.vmas) mm.links vma)
  return { mm with links := links }

/-- `insert_vma_rb`, with `vma_prevp`. -/
def insertVmaRbPrev (mm : Mm) (T : RbTree) (vma : ℕ) : Except Stop (Option ℕ × Mm) := do
  let mm ← insertVmaRb mm T vma
  let prev ← orAssertion (Rb.rbNodePrev T mm.fuel mm.links vma)
  return (prev, mm)

/-- The walk along the list in `insert_vma_struct`: the last VMA that does not start above
`start`, and `lePrev` if there is none. -/
def insertVmaList (vmas : ℕ → Vma) (start : ℕ) : List ℕ → Option ℕ → Option ℕ
  | [], lePrev => lePrev
  | le :: l, lePrev =>
    if (vmas le).vmStart > start then lePrev else insertVmaList vmas start l (some le)

/-- The first part of `insert_vma_struct`: `le_prev`, and the tree with the new VMA. -/
def insertVmaPrev (mm : Mm) (vma : ℕ) : Except Stop (Option ℕ × Mm) :=
  match mm.mmapTree with
  | some T => insertVmaRbPrev mm T vma
  | none => .ok (insertVmaList mm.vmas (mm.vmas vma).vmStart mm.mmapList none, mm)

/-- The overlap checks of `insert_vma_struct`. -/
def insertVmaCheck (mm : Mm) (lePrev leNext : Option ℕ) (vma : ℕ) : Except Stop Unit := do
  lePrev.elim (.ok ()) fun prev => checkVmaOverlap (mm.vmas prev) (mm.vmas vma)
  leNext.elim (.ok ()) fun next => checkVmaOverlap (mm.vmas vma) (mm.vmas next)

/-- `rb_tree_create`. -/
def rbTreeCreate (s : St P) : Option RbTree × St P :=
  match kmalloc K s with
  | (none, s) => (none, s)
  | (some tree, s) =>
    match kmalloc K s with
    | (none, s) => (none, kfree s tree)
    | (some nil, s) =>
      match kmalloc K s with
      | (none, s) => (none, kfree (kfree s nil) tree)
      | (some root, s) =>
        let links := Rb.rbTreeCreate ⟨nil, root⟩ s.mm.links
        (some ⟨nil, root⟩, { s with mm := { s.mm with links := links } })

/-- The loop that puts the VMAs of the list into a new tree. -/
def insertVmaAll (T : RbTree) : List ℕ → Mm → Except Stop Mm
  | [], mm => .ok mm
  | vma :: l, mm => do
      let mm ← insertVmaRb mm T vma
      insertVmaAll T l mm

/-- The last part of `insert_vma_struct`: the tree is built once there are enough VMAs. -/
def insertVmaBuild (s : St P) : Except Stop (St P) :=
  if s.mm.mmapTree = none ∧ s.mm.mapCount ≥ rbMinMapCount then
    match rbTreeCreate K s with
    | (none, s) => .ok s
    | (some T, s) => do
        let mm ← insertVmaAll T s.mm.mmapList { s.mm with mmapTree := some T }
        return { s with mm := mm }
  else .ok s

/-- The VMA `vma` goes into the list behind `lePrev`. -/
def Mm.link (mm : Mm) (lePrev : Option ℕ) (vma : ℕ) : Mm :=
  { mm.setVma vma { mm.vmas vma with vmMm := mm.self } with
    mmapList := listAddAfter mm.mmapList lePrev vma
    mapCount := mm.mapCount + 1 }

/-- `insert_vma_struct`. -/
def insertVmaStruct (s : St P) (vma : ℕ) : Except Stop (St P) := do
  assert ((s.mm.vmas vma).vmStart < (s.mm.vmas vma).vmEnd)
  let r ← insertVmaPrev s.mm vma
  insertVmaCheck r.2 r.1 (listNext r.2.mmapList r.1) vma
  insertVmaBuild K { s with mm := r.2.link r.1 vma }

/-- The part `if (mm->mmap_tree != NULL)` of `remove_vma_struct`. -/
def removeVmaRb (mm : Mm) (vma : ℕ) : Except Stop Mm :=
  match mm.mmapTree with
  | some T => do
      let links ← orAssertion (Rb.rbDelete T mm.fuel mm.links vma)
      return { mm with links := links }
  | none => .ok mm

/-- `remove_vma_struct`. -/
def removeVmaStruct (mm : Mm) (vma : ℕ) : Except Stop Mm := do
  assert (mm.self = (mm.vmas vma).vmMm)
  let mm ← removeVmaRb mm vma
  return { mm with
    mmapList := mm.mmapList.erase vma
    mmapCache := if some vma = mm.mmapCache then none else mm.mmapCache
    mapCount := mm.mapCount - 1 }

/-! ### The calls -/

/-- `mm_map`; returns the VMA that `*vma_store` gets. -/
def mmMap (s : St P) (addr len : ℕ) (vmFlags : BitVec 32) : Except Stop (Except Errno ℕ × St P) :=
  let start := A.roundDown addr
  let stop := A.rangeEnd addr len
  if ¬A.UserAccess start stop then .ok (.error .inval, s)
  else do
    let r ← findVma s.mm start
    if r.1.any fun vma => stop > (r.2.vmas vma).vmStart then
      return (.error .inval, { s with mm := r.2 })
    else
      match vmaCreate K { s with mm := r.2 } start stop (vmFlags &&& ~~~vmShare) with
      | (none, s) => return (.error .noMem, s)
      | (some vma, s) => do
          let s ← insertVmaStruct K s vma
          return (.ok vma, s)

/-- `mm_map_shmem`. -/
def mmMapShmem (s : St P) (addr : ℕ) (vmFlags : BitVec 32) (shmem : Option ℕ) :
    Except Stop (Except Errno ℕ × St P) :=
  match shmem with
  | none => .ok (.error .inval, s)
  | some shmem =>
    if addr % A.pgsize ≠ 0 then .ok (.error .inval, s)
    else do
      let s := shmemRefAdd s shmem 1
      let r ← mmMap A K s addr (s.kernel.shmems shmem).len vmFlags
      match r with
      | (.error e, s) => return (.error e, shmemRefAdd s shmem (-1))
      | (.ok vma, s) =>
        let v := s.mm.vmas vma
        let v := { v with shmem := some shmem, shmemOff := 0, vmFlags := v.vmFlags ||| vmShare }
        return (.ok vma, { s with mm := s.mm.setVma vma v })

/-- `vma_resize`. -/
def vmaResize (mm : Mm) (vma start stop : ℕ) : Except Stop Mm := do
  let v := mm.vmas vma
  assert (start % A.pgsize = 0 ∧ stop % A.pgsize = 0)
  assert (v.vmStart ≤ start ∧ start < stop ∧ stop ≤ v.vmEnd)
  let off := if v.share then (v.shmemOff + (start - v.vmStart)) % 2 ^ A.wordBits else v.shmemOff
  return mm.setVma vma { v with vmStart := start, vmEnd := stop, shmemOff := off }

/-- `unmap_range`, with its assertions. -/
def unmapRange (s : St P) (start stop : ℕ) : Except Stop (St P) := do
  assert (start % A.pgsize = 0 ∧ stop % A.pgsize = 0)
  assert (A.UserAccess start stop)
  let pages ← orPages (ops.unmapRange s.kernel.pages s.mm.pgdir start stop)
  return { s with kernel := { s.kernel with pages := pages } }

/-- `mm_unmap` of a range strictly inside a VMA: the VMA keeps what is above the range, and a
new one gets what is below. -/
def mmUnmapInside (s : St P) (vma start stop : ℕ) : Except Stop (Except Errno Unit × St P) :=
  let v := s.mm.vmas vma
  match vmaCreate K s v.vmStart start v.vmFlags with
  | (none, s) => .ok (.error .noMem, s)
  | (some nvma, s) => do
      let mm ← vmaResize A s.mm vma stop v.vmEnd
      let s ← insertVmaStruct K { s with mm := mm } nvma
      let s ← unmapRange A ops s start stop
      return (.ok (), s)

/-- The first loop of `mm_unmap`: the VMAs from `vma` on that begin below `stop` move to
`free_list`. -/
def mmUnmapCollect (stop : ℕ) : ℕ → Mm → ℕ → List ℕ → Except Stop (List ℕ × Mm)
  | 0, _, _, _ => .error .assertion
  | fuel + 1, mm, vma, freeList =>
    if (mm.vmas vma).vmStart < stop then do
      let le := listNext mm.mmapList (some vma)
      let mm ← removeVmaStruct mm vma
      match le with
      | none => return (vma :: freeList, mm)
      | some le => mmUnmapCollect stop fuel mm le (vma :: freeList)
    else .ok (freeList, mm)

/-- The body of the second loop of `mm_unmap`: what lies outside the range goes back into the
set, and the rest is unmapped. -/
def mmUnmapRelease (s : St P) (vma start stop : ℕ) : Except Stop (St P) :=
  let v := s.mm.vmas vma
  if v.vmStart < start then do
    let mm ← vmaResize A s.mm vma v.vmStart start
    let s ← insertVmaStruct K { s with mm := mm } vma
    unmapRange A ops s start v.vmEnd
  else if stop < v.vmEnd then do
    let mm ← vmaResize A s.mm vma stop v.vmEnd
    let s ← insertVmaStruct K { s with mm := mm } vma
    unmapRange A ops s v.vmStart stop
  else do
    let s ← vmaDestroy ops s vma
    unmapRange A ops s v.vmStart v.vmEnd

/-- The second loop of `mm_unmap`. -/
def mmUnmapLoop (start stop : ℕ) : List ℕ → St P → Except Stop (St P)
  | [], s => .ok s
  | vma :: freeList, s => do
      let s ← mmUnmapRelease A ops K s vma start stop
      mmUnmapLoop start stop freeList s

/-- `mm_unmap`, behind `find_vma`. -/
def mmUnmapFrom (s : St P) (vma start stop : ℕ) : Except Stop (Except Errno Unit × St P) :=
  let v := s.mm.vmas vma
  if stop ≤ v.vmStart then .ok (.ok (), s)
  else if v.vmStart < start ∧ stop < v.vmEnd then mmUnmapInside A ops K s vma start stop
  else do
    let r ← mmUnmapCollect stop s.mm.fuel s.mm vma []
    let s ← mmUnmapLoop A ops K start stop r.1 { s with mm := r.2 }
    return (.ok (), s)

/-- `mm_unmap`. -/
def mmUnmap (s : St P) (addr len : ℕ) : Except Stop (Except Errno Unit × St P) :=
  let start := A.roundDown addr
  let stop := A.rangeEnd addr len
  if ¬A.UserAccess start stop then .ok (.error .inval, s)
  else do
    let r ← findVma s.mm start
    match r.1 with
    | none => return (.ok (), { s with mm := r.2 })
    | some vma => mmUnmapFrom A ops K { s with mm := r.2 } vma start stop

/-- The rest of `mm_brk`, when the range is free: the VMA below the range grows, or there is a
new one. -/
def mmBrkGrow (s : St P) (start stop : ℕ) : Except Stop (Except Errno Unit × St P) := do
  let r ← findVma s.mm (start - 1)
  let s := { s with mm := r.2 }
  match r.1.filter fun vma =>
      (s.mm.vmas vma).vmEnd = start ∧ (s.mm.vmas vma).vmFlags = vmRead ||| vmWrite with
  | some vma => return (.ok (), { s with mm := s.mm.setVma vma { s.mm.vmas vma with vmEnd := stop } })
  | none =>
    match vmaCreate K s start stop (vmRead ||| vmWrite) with
    | (none, s) => return (.error .noMem, s)
    | (some vma, s) => do
        let s ← insertVmaStruct K s vma
        return (.ok (), s)

/-- `mm_brk`. -/
def mmBrk (s : St P) (addr len : ℕ) : Except Stop (Except Errno Unit × St P) :=
  let start := A.roundDown addr
  let stop := A.rangeEnd addr len
  if ¬A.UserAccess start stop then .ok (.error .inval, s)
  else do
    let r ← mmUnmap A ops K s start (stop - start)
    match r with
    | (.error e, s) => return (.error e, s)
    | (.ok (), s) => mmBrkGrow K s start stop

/-- `copy_range`, with its assertions; returns whether it succeeded. -/
def copyRange (s : St P) (source start stop : ℕ) (share : Bool) : Except Stop (Bool × St P) := do
  assert (start % A.pgsize = 0 ∧ stop % A.pgsize = 0)
  assert (A.UserAccess start stop)
  let r ← orPages (ops.copyRange s.kernel.pages s.mm.pgdir source start stop share)
  return (r.1, { s with kernel := { s.kernel with pages := r.2 } })

/-- The part `if (vma->vm_flags & VM_SHARE)` of `dup_mmap`. -/
def dupShmem (s : St P) (v : Vma) (nvma : ℕ) : Except Stop (St P) :=
  if v.share then
    let n := { s.mm.vmas nvma with shmem := v.shmem, shmemOff := v.shmemOff }
    let s := { s with mm := s.mm.setVma nvma n }
    match v.shmem with
    | none => .error .nullPointer
    | some shmem => .ok (shmemRefAdd s shmem 1)
  else .ok s

/-- The body of the loop of `dup_mmap`, for the VMA `v` of `from`. -/
def dupVma (source : ℕ) (s : St P) (v : Vma) : Except Stop (Except Errno Unit × St P) :=
  match vmaCreate K s v.vmStart v.vmEnd v.vmFlags with
  | (none, s) => .ok (.error .noMem, s)
  | (some nvma, s) => do
      let s ← dupShmem s v nvma
      let s ← insertVmaStruct K s nvma
      let r ← copyRange A ops s source v.vmStart v.vmEnd v.share
      return (if r.1 then .ok () else .error .noMem, r.2)

/-- The loop of `dup_mmap`, over the VMAs of `from` that are left. -/
def dupLoop (source : ℕ) : List Vma → St P → Except Stop (Except Errno Unit × St P)
  | [], s => .ok (.ok (), s)
  | v :: vs, s => do
      let r ← dupVma A ops K source s v
      match r with
      | (.error e, s) => return (.error e, s)
      | (.ok (), s) => dupLoop source vs s

/-- `dup_mmap`; `to` is the address space of the state. -/
def dupMmap (s : St P) (source : Mm) : Except Stop (Except Errno Unit × St P) :=
  dupLoop A ops K source.pgdir (source.mmapList.reverse.map source.vmas) s

/-! ### Any number of address spaces -/

/-- The address spaces, by the address of their `mm_struct`. -/
structure System (P : Type) where
  kernel : Kernel P
  mms : ℕ → Option Mm

/-- `mm_create`, when `kmalloc` has returned `self`; the rest of the memory is what it was. -/
def mmCreate (self pgdir : ℕ) (vmas : ℕ → Vma) (links : Heap) : Mm :=
  ⟨self, [], none, none, 0, pgdir, vmas, links, ∅⟩

/-- A call. -/
inductive Op where
  | mmCreate (mm pgdir : ℕ) (vmas : ℕ → Vma) (links : Heap)
  | mmMap (mm addr len : ℕ) (vmFlags : BitVec 32)
  | mmMapShmem (mm addr : ℕ) (vmFlags : BitVec 32) (shmem : Option ℕ)
  | mmUnmap (mm addr len : ℕ)
  | mmBrk (mm addr len : ℕ)
  | dupMmap (target source : ℕ)

/-- A call on the address space at `a`. -/
def System.on (σ : System P) (a : ℕ) {α : Type} (f : St P → Except Stop (α × St P)) : Except Stop (System P) :=
  match σ.mms a with
  | none => .ok σ
  | some mm => do
      let r ← f ⟨σ.kernel, mm⟩
      return ⟨r.2.kernel, update σ.mms a (some r.2.mm)⟩

/-- One call. There is no call on an address space that does not exist, and `dup_mmap` is
called with a new one as `to`. -/
def step (σ : System P) : Op → Except Stop (System P)
  | .mmCreate a pgdir vmas links =>
    match σ.mms a with
    | none => .ok { σ with mms := update σ.mms a (some (mmCreate a pgdir vmas links)) }
    | some _ => .ok σ
  | .mmMap a addr len vmFlags => σ.on a fun s => mmMap A K s addr len vmFlags
  | .mmMapShmem a addr vmFlags shmem => σ.on a fun s => mmMapShmem A K s addr vmFlags shmem
  | .mmUnmap a addr len => σ.on a fun s => mmUnmap A ops K s addr len
  | .mmBrk a addr len => σ.on a fun s => mmBrk A ops K s addr len
  | .dupMmap target source =>
    match σ.mms source with
    | none => .ok σ
    | some mm => σ.on target fun s =>
      if s.mm.mmapList = [] then dupMmap A ops K s mm else .ok (.ok (), s)

/-- A sequence of calls. -/
def run (σ : System P) : List Op → Except Stop (System P)
  | [] => .ok σ
  | op :: rest => do
      let σ ← step A ops K σ op
      run σ rest

end UcoreKernel.Vmm
