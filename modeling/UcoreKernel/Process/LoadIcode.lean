import UcoreKernel.Lib.ByteBlock
import UcoreKernel.Mm.MapLengths

/-!
`load_icode` (`kern-ucore/process/proc.c`): the loadable segments of an ELF file.

Each segment gets a VMA, and then its pages one by one: those with bytes of the file, the rest of the
last of them, and those that are zero. Two variables go from one segment to the next: the permission of
the pages, to which a segment that may be written adds the permission to write, and the address space.
-/

namespace UcoreKernel.LoadIcode

open Vmm ByteBlock Function

/-- The error codes. -/
inductive Err where
  | noMem
  | invalElf
  | map (e : Errno)
  | read
  deriving DecidableEq, Repr

/-- Why there is no result: an error code, or the kernel stops, or a loop does not end. -/
inductive Fail where
  | err (e : Err)
  | stop (e : Stop)
  | assertion
  | diverges
  deriving DecidableEq, Repr

/-- A file: its bytes, and whether reading `len` of them at `offset` fails, as it does at a negative
offset. -/
structure File where
  byte : ℕ → UInt8
  fails : (len offset : ℕ) → Bool
  fails_of_neg : ∀ len offset, 2 ^ 31 ≤ offset → fails len offset = true

/-- `load_icode_read`. -/
def loadIcodeRead (f : File) (len offset : ℕ) : Except Fail (List UInt8) :=
  if f.fails len offset then .error (.err .read) else .ok ((List.range len).map fun i => f.byte (offset + i))

/-- A number of `w` bytes in a header. -/
def field (bytes : List UInt8) (w off : ℕ) : ℕ := leNat ((bytes.drop off).take w)

/-- The fields of `struct elfhdr` that are read. -/
structure ElfHdr where
  magic : ℕ
  phoff : ℕ
  phnum : ℕ

def ElfHdr.ofBytes (bytes : List UInt8) : ElfHdr := ⟨field bytes 4 0, field bytes 4 28, field bytes 2 44⟩

/-- The fields of `struct proghdr` that are read. -/
structure ProgHdr where
  type : ℕ
  offset : ℕ
  va : ℕ
  filesz : ℕ
  memsz : ℕ
  flags : ℕ
  deriving DecidableEq, Repr

def ProgHdr.ofBytes (bytes : List UInt8) : ProgHdr :=
  ⟨field bytes 4 0, field bytes 4 4, field bytes 4 8, field bytes 4 16, field bytes 4 20, field bytes 4 24⟩

/-- `ph->p_type == ELF_PT_LOAD`. -/
def ProgHdr.load (ph : ProgHdr) : Bool := ph.type = 1

/-- `ph->p_flags & ELF_PF_W`. -/
def ProgHdr.writes (ph : ProgHdr) : Bool := ph.flags.testBit 1

/-- `vm_flags` of the segment. -/
def ProgHdr.vmFlags (ph : ProgHdr) : BitVec 32 :=
  (if ph.flags.testBit 0 then vmExec else 0) ||| (if ph.writes then vmWrite else 0) |||
    (if ph.flags.testBit 2 then vmRead else 0)

/-- A page of the process: its bytes, and whether it is writable; `seg` is the number of the segment it
was installed for. -/
structure Page where
  data : Block
  uWrite : Bool
  seg : ℕ

/-- The pages of the new address space by their addresses, and the number of allocations. -/
structure Mem where
  pages : ℕ → Option Page
  allocs : ℕ

/-- What a byte of memory holds, if there is a page. -/
def Mem.byte (A : Layout) (m : Mem) (x : ℕ) : Option UInt8 :=
  (m.pages (A.roundDown x)).map fun page => page.data (x % A.pgsize)

variable (A : Layout) (alloc : ℕ → Option Block) (K : Kmalloc)

/-- `pgdir_alloc_page`: a page with any bytes, or none. -/
def pgdirAllocPage (m : Mem) (la : ℕ) (perm : Bool) (seg : ℕ) : Option Mem :=
  (alloc m.allocs).map fun data => ⟨update m.pages la (some ⟨data, perm, seg⟩), m.allocs + 1⟩

lemma pgdirAllocPage_pages {alloc : ℕ → Option Block} {m m' : Mem} {la seg : ℕ} {perm : Bool}
    (h : pgdirAllocPage alloc m la perm seg = some m') :
    ∃ data, ∀ x, m'.pages x = if x = la then some ⟨data, perm, seg⟩ else m.pages x := by
  obtain ⟨data, -, rfl⟩ := Option.map_eq_some_iff.mp h
  exact ⟨data, fun x => update_apply ..⟩

/-- Bytes are written to the page at `la`. -/
def Mem.put (m : Mem) (la off : ℕ) (bytes : List UInt8) : Mem :=
  ⟨update m.pages la ((m.pages la).map fun page => { page with data := write page.data off bytes }), m.allocs⟩

lemma Mem.put_pages (m : Mem) (la off : ℕ) (bytes : List UInt8) (x : ℕ) : (m.put la off bytes).pages x =
    if x = la then (m.pages la).map fun page => { page with data := write page.data off bytes }
    else m.pages x := update_apply ..

/-- Sums and differences of the machine. -/
def add (x y : ℕ) : ℕ := (x + y) % 2 ^ A.wordBits

def sub (x y : ℕ) : ℕ := (x + 2 ^ A.wordBits - y) % 2 ^ A.wordBits

/-- How many bytes go to a page, from `off` on, if the next page is at `la`. -/
def pieceSize (off la stop : ℕ) : ℕ :=
  let size := sub A A.pgsize off
  if stop < la then sub A size (sub A la stop) else size

/-- The two loops over pages: `source size offset` are the bytes for a page. -/
def fillLoop (source : ℕ → ℕ → Except Fail (List UInt8)) (perm : Bool) (seg stop : ℕ) :
    ℕ → Mem → (start la offset : ℕ) → Except Fail (Mem × ℕ × ℕ)
  | 0, _, _, _, _ => .error .diverges
  | fuel + 1, m, start, la, offset =>
    if start < stop then
      match pgdirAllocPage alloc m la perm seg with
      | none => .error (.err .noMem)
      | some m => do
          let off := sub A start la
          let next := add A la A.pgsize
          let size := pieceSize A off next stop
          let bytes ← source size offset
          fillLoop source perm seg stop fuel (m.put la off bytes) (add A start size) next ((offset + size) % 2 ^ 32)
    else .ok (m, start, la)

/-- `memset (_, 0, size)`. -/
def zeros (size _offset : ℕ) : Except Fail (List UInt8) := .ok (List.replicate size 0)

/-- The rest of the page that the bytes of the file end in. -/
def fillRest (m : Mem) (start la stop : ℕ) : Except Fail (Mem × ℕ) :=
  let off := sub A (add A start A.pgsize) la
  let size := pieceSize A off la stop
  let m := m.put (sub A la A.pgsize) off (List.replicate size 0)
  let start := add A start size
  if (stop < la ∧ start = stop) ∨ (la ≤ stop ∧ start = la) then .ok (m, start) else .error .assertion

/-- The pages of a segment. -/
def loadPages (f : File) (ph : ProgHdr) (perm : Bool) (seg : ℕ) (m : Mem) : Except Fail Mem := do
  let (m, start, la) ← fillLoop A alloc (loadIcodeRead f) perm seg (add A ph.va ph.filesz) (2 ^ A.wordBits) m
    ph.va (A.roundDown ph.va) ph.offset
  let stop := add A ph.va ph.memsz
  if start < la ∧ start = stop then return m
  else do
    let (m, start) ← if start < la then fillRest A m start la stop else .ok (m, start)
    let (m, _, _) ← fillLoop A alloc zeros perm seg stop (2 ^ A.wordBits) m start la 0
    return m

/-- A call into `vmm.c` that gives back an error code. -/
def orFail {α : Type} (r : Except Stop (Except Errno α × St Mem)) : Except Fail (St Mem) :=
  match r with
  | .error e => .error (.stop e)
  | .ok (.error e, _) => .error (.err (.map e))
  | .ok (.ok _, s) => .ok s

/-- The body of the loop of `load_icode`, for a loadable segment. -/
def loadSegment (f : File) (ph : ProgHdr) (perm : Bool) (seg : ℕ) (s : St Mem) : Except Fail (St Mem) := do
  let s ← orFail (mmMap A K s ph.va ph.memsz ph.vmFlags)
  let m ← loadPages A alloc f ph perm seg s.kernel.pages
  return { s with kernel := { s.kernel with pages := m } }

/-- The program header with a number. -/
def File.progHdr (f : File) (elf : ElfHdr) (seg : ℕ) : Except Fail ProgHdr := do
  let bytes ← loadIcodeRead f 32 ((elf.phoff + 32 * seg) % 2 ^ 32)
  return ProgHdr.ofBytes bytes

/-- The loop of `load_icode`; the arguments are the number of segments that are left, the number of the
next one, `perm` and `brk_start`. -/
def loadLoop (f : File) (elf : ElfHdr) : ℕ → ℕ → Bool → ℕ → St Mem → Except Fail (St Mem × ℕ)
  | 0, _, _, brk, s => .ok (s, brk)
  | left + 1, seg, perm, brk, s => do
      let ph ← f.progHdr elf seg
      if ph.load = false then loadLoop f elf left (seg + 1) perm brk s
      else if ph.memsz < ph.filesz then .error (.err .invalElf)
      else do
        let s ← loadSegment A alloc K f ph (perm || ph.writes) seg s
        loadLoop f elf left (seg + 1) (perm || ph.writes) (max brk (add A ph.va ph.memsz)) s

/-- `load_icode`, up to the stack, from an address space without VMAs. -/
def loadIcode (f : File) (s : St Mem) : Except Fail (St Mem × ℕ) := do
  let bytes ← loadIcodeRead f 52 0
  let elf := ElfHdr.ofBytes bytes
  if elf.magic ≠ 0x464C457F then .error (.err .invalElf)
  else do
    let (s, brk) ← loadLoop A alloc K f elf elf.phnum 0 false 0 s
    let s ← orFail (mmMap A K s (A.userTop - 256 * A.pgsize) (256 * A.pgsize) (vmRead ||| vmWrite ||| vmStack))
    return (s, A.roundUp brk)

/-! ### The permission to write -/

/-- The ELF header of the file. -/
def File.elf (f : File) : ElfHdr := ElfHdr.ofBytes ((List.range 52).map fun i => f.byte (0 + i))

/-- There is a loadable segment with the number. -/
def File.Loads (f : File) (seg : ℕ) : Prop := ∃ ph, f.progHdr f.elf seg = .ok ph ∧ ph.load = true

/-- There is one, and it has the write flag. -/
def File.Writes (f : File) (seg : ℕ) : Prop :=
  ∃ ph, f.progHdr f.elf seg = .ok ph ∧ ph.load = true ∧ ph.writes = true

variable {A alloc K} {m m' m'' : Mem} {perm : Bool} {seg : ℕ} {f : File} {s s' : St Mem}

/-- Every page is as before, apart from its bytes, or it was installed for the segment. -/
def Installs (perm : Bool) (seg : ℕ) (m m' : Mem) : Prop :=
  ∀ x page', m'.pages x = some page' → (page'.uWrite = perm ∧ page'.seg = seg) ∨
    ∃ page, m.pages x = some page ∧ page'.uWrite = page.uWrite ∧ page'.seg = page.seg

lemma Installs.refl : Installs perm seg m m := fun _ page h => .inr ⟨page, h, rfl, rfl⟩

lemma Installs.trans (h : Installs perm seg m m') (h' : Installs perm seg m' m'') : Installs perm seg m m'' := by
  intro x page hx
  obtain hnew | ⟨page', hx', hw, hs⟩ := h' x page hx
  · exact .inl hnew
  · rw [hw, hs]
    exact h x page' hx'

lemma Installs.put (la off : ℕ) (bytes : List UInt8) : Installs perm seg m (m.put la off bytes) := by
  intro x page hx
  rw [Mem.put_pages] at hx
  split_ifs at hx with hxla
  · obtain ⟨page', hpage, rfl⟩ := Option.map_eq_some_iff.mp hx
    exact .inr ⟨page', hxla ▸ hpage, rfl, rfl⟩
  · exact .inr ⟨page, hx, rfl, rfl⟩

lemma Installs.of_alloc {la : ℕ} (h : pgdirAllocPage alloc m la perm seg = some m') : Installs perm seg m m' := by
  obtain ⟨data, hpages⟩ := pgdirAllocPage_pages h
  intro x page hx
  rw [hpages] at hx
  split_ifs at hx
  · cases hx
    exact .inl ⟨rfl, rfl⟩
  · exact .inr ⟨page, hx, rfl, rfl⟩

lemma fillLoop_installs {source : ℕ → ℕ → Except Fail (List UInt8)} {stop : ℕ} (fuel : ℕ) {start la offset : ℕ}
    {r : ℕ × ℕ} (h : fillLoop A alloc source perm seg stop fuel m start la offset = .ok (m', r)) :
    Installs perm seg m m' := by
  induction fuel generalizing m start la offset with
  | zero => cases h
  | succ fuel ih =>
    rw [fillLoop] at h
    split_ifs at h with hlt
    · cases halloc : pgdirAllocPage alloc m la perm seg with
      | none =>
        rw [halloc] at h
        cases h
      | some m1 =>
        rw [halloc] at h
        obtain ⟨bytes, -, hrest⟩ := bind_eq_ok_iff.mp h
        exact ((Installs.of_alloc halloc).trans (Installs.put _ _ _)).trans (ih hrest)
    · cases h
      exact Installs.refl

lemma loadPages_installs {ph : ProgHdr} (h : loadPages A alloc f ph perm seg m = .ok m') :
    Installs perm seg m m' := by
  obtain ⟨⟨m1, start, la⟩, hfile, h⟩ := bind_eq_ok_iff.mp h
  refine (fillLoop_installs _ hfile).trans ?_
  dsimp only at h
  split_ifs at h with hdone hrest
  · cases h
    exact Installs.refl
  all_goals
    obtain ⟨r2, hrest, h⟩ := bind_eq_ok_iff.mp h
    obtain ⟨r3, hzero, h⟩ := bind_eq_ok_iff.mp h
    cases h
  · refine Installs.trans ?_ (fillLoop_installs _ hzero)
    rw [fillRest] at hrest
    split_ifs at hrest
    cases hrest
    exact Installs.put _ _ _
  · cases hrest
    exact fillLoop_installs _ hzero

/-- Some VMA has the address. -/
def Covered (mm : Mm) (x : ℕ) : Prop := ∃ a ∈ mm.mmapList, (mm.vmas a).Covers x

/-- A call of `mm_map` that succeeds: the pages of the range were free, and they are in a VMA now. -/
lemma mmMap_ok {addr len : ℕ} {fl : BitVec 32} (hinv : MmInv A s.mm)
    (h : orFail (mmMap A K s addr len fl) = .ok s') :
    MmInv A s'.mm ∧ s'.kernel.pages = s.kernel.pages ∧ A.UserAccess (A.roundDown addr) (A.rangeEnd addr len) ∧
      (∀ x, A.roundDown addr ≤ x ∧ x < A.rangeEnd addr len → ¬Covered s.mm x) ∧
      ∀ x, (A.roundDown addr ≤ x ∧ x < A.rangeEnd addr len) ∨ Covered s.mm x → Covered s'.mm x := by
  obtain ⟨r, s2, hrun, hinv2, -, -, -, hkeep, -, hok⟩ := mmMap_spec hinv addr len fl
  rw [hrun] at h
  cases r with
  | error e => cases h
  | ok a =>
    cases h
    obtain ⟨haccess, hapart, hperm, hnot, hvmas⟩ := hok a rfl
    refine ⟨hinv2, hkeep, haccess, ?_, ?_⟩
    · rintro x hx ⟨b, hb, hcov⟩
      obtain h | h := hapart b hb
      · exact absurd (hcov.2.trans_le h) (not_lt.mpr hx.1)
      · exact absurd (hx.2.trans_le h) (not_lt.mpr hcov.1)
    · rintro x (hx | ⟨b, hb, hcov⟩)
      · refine ⟨a, hperm.mem_iff.mpr (.head _), ?_⟩
        rw [hvmas, update_self]
        exact hx
      · refine ⟨b, hperm.mem_iff.mpr (List.mem_cons_of_mem a hb), ?_⟩
        rwa [hvmas, update_of_ne fun h : b = a => hnot (h ▸ hb)]

/-- A segment: the VMA leaves the pages, and the pages are installed. -/
lemma loadSegment_installs {ph : ProgHdr} (hinv : MmInv A s.mm)
    (h : loadSegment A alloc K f ph perm seg s = .ok s') :
    MmInv A s'.mm ∧ Installs perm seg s.kernel.pages s'.kernel.pages := by
  obtain ⟨s1, hmap, h⟩ := bind_eq_ok_iff.mp h
  obtain ⟨m, hpages, h⟩ := bind_eq_ok_iff.mp h
  cases h
  obtain ⟨hinv1, hkeep, -⟩ := mmMap_ok hinv hmap
  exact ⟨hinv1, hkeep ▸ loadPages_installs hpages⟩

variable (f) in
/-- The pages and `perm` after the segments below `n`. -/
structure Marked (n : ℕ) (perm : Bool) (m : Mem) : Prop where
  perm_iff : perm = true ↔ ∃ j < n, f.Writes j
  page : ∀ x page, m.pages x = some page → page.seg < n ∧ f.Loads page.seg ∧
    (page.uWrite = true ↔ ∃ j ≤ page.seg, f.Writes j)

/-- The loop over the segments. -/
lemma loadLoop_marked (left : ℕ) {brk brk' : ℕ} (hinv : MmInv A s.mm) (hm : Marked f seg perm s.kernel.pages)
    (h : loadLoop A alloc K f f.elf left seg perm brk s = .ok (s', brk')) :
    MmInv A s'.mm ∧ ∃ perm', Marked f (seg + left) perm' s'.kernel.pages := by
  induction left generalizing seg perm brk s with
  | zero =>
    cases h
    exact ⟨hinv, perm, hm⟩
  | succ left ih =>
    obtain ⟨ph, hph, h⟩ := bind_eq_ok_iff.mp h
    have hwrites : f.Writes seg ↔ ph.load = true ∧ ph.writes = true := by
      simp only [File.Writes, hph, Except.ok.injEq, exists_eq_left']
    have hbelow : (∃ j < seg + 1, f.Writes j) ↔ (∃ j < seg, f.Writes j) ∨ f.Writes seg := by
      simp only [Nat.lt_succ_iff_lt_or_eq, or_and_right, exists_or, exists_eq_left]
    rw [show seg + (left + 1) = seg + 1 + left by omega]
    split_ifs at h with hload hsize
    · refine ih hinv ⟨?_, fun x page hx => ?_⟩ h
      · rw [hm.perm_iff, hbelow, hwrites, hload]
        simp
      · obtain ⟨hlt, hrest⟩ := hm.page x page hx
        exact ⟨by omega, hrest⟩
    · obtain ⟨s1, hseg, h⟩ := bind_eq_ok_iff.mp h
      obtain ⟨hinv1, hinstalls⟩ := loadSegment_installs hinv hseg
      have hload : ph.load = true := by simpa using hload
      have hperm : (perm || ph.writes) = true ↔ ∃ j < seg + 1, f.Writes j := by
        rw [Bool.or_eq_true, hm.perm_iff, hbelow, hwrites, and_iff_right hload]
      refine ih hinv1 ⟨hperm, fun x page hx => ?_⟩ h
      obtain ⟨hw, hs⟩ | ⟨page', hx', hw, hs⟩ := hinstalls x page hx
      · rw [hw, hs, hperm]
        exact ⟨Nat.lt_succ_self seg, ⟨ph, hph, hload⟩, by simp only [Nat.lt_succ_iff]⟩
      · rw [hw, hs]
        obtain ⟨hlt, hrest⟩ := hm.page x page' hx'
        exact ⟨by omega, hrest⟩

/-- The parts of `load_icode`. -/
lemma loadIcode_ok {brk : ℕ} (h : loadIcode A alloc K f s = .ok (s', brk)) : ∃ s₁ s₂ brk₁,
    loadLoop A alloc K f f.elf f.elf.phnum 0 false 0 s = .ok (s₁, brk₁) ∧
      orFail (mmMap A K s₁ (A.userTop - 256 * A.pgsize) (256 * A.pgsize) (vmRead ||| vmWrite ||| vmStack)) =
        .ok s₂ ∧ s₂ = s' := by
  obtain ⟨bytes, hread, h⟩ := bind_eq_ok_iff.mp h
  have helf : ElfHdr.ofBytes bytes = f.elf := by
    rw [loadIcodeRead] at hread
    split_ifs at hread
    rw [← Except.ok.inj hread]
    rfl
  dsimp only at h
  rw [helf] at h
  split_ifs at h
  obtain ⟨⟨s₁, brk₁⟩, hloop, h⟩ := bind_eq_ok_iff.mp h
  obtain ⟨s₂, hstack, h⟩ := bind_eq_ok_iff.mp h
  exact ⟨s₁, s₂, brk₁, hloop, hstack, (Prod.mk.inj (Except.ok.inj h)).1⟩

/-- **Writable pages.**  For every file that `load_icode` accepts, with any number of segments in any
order: a page is installed for a loadable segment, and it is writable exactly if this segment *or one
before it* has the write flag. So if every loadable segment behind one with the write flag has it too,
a page is writable exactly if its segment has the flag. -/
theorem page_writable_iff (A : Layout) (alloc : ℕ → Option Block) (K : Kmalloc) (f : File) (s s' : St Mem)
    (brk : ℕ) (hinv : MmInv A s.mm) (hnew : s.kernel.pages.pages = fun _ => none)
    (hrun : loadIcode A alloc K f s = .ok (s', brk)) :
    (∀ x page, s'.kernel.pages.pages x = some page → page.seg < f.elf.phnum ∧ f.Loads page.seg ∧
      (page.uWrite = true ↔ ∃ j ≤ page.seg, f.Writes j)) ∧
    ((∀ i j, i < j → f.Writes i → f.Loads j → f.Writes j) → ∀ x page, s'.kernel.pages.pages x = some page →
      (page.uWrite = true ↔ f.Writes page.seg)) := by
  obtain ⟨s1, s2, brk1, hloop, hstack, hret⟩ := loadIcode_ok hrun
  obtain ⟨hinv1, perm, hmarked⟩ := loadLoop_marked _ hinv ⟨by simp, fun x page hx => by simp [hnew] at hx⟩ hloop
  obtain ⟨-, hkeep, -⟩ := mmMap_ok hinv1 hstack
  rw [zero_add, ← hkeep, hret] at hmarked
  refine ⟨hmarked.page, fun horder x page hx => ?_⟩
  obtain ⟨-, hloads, hiff⟩ := hmarked.page x page hx
  rw [hiff]
  refine ⟨?_, fun hw => ⟨page.seg, le_rfl, hw⟩⟩
  rintro ⟨j, hj, hw⟩
  obtain hlt | rfl := hj.lt_or_eq
  · exact horder j _ hlt hw hloads
  · exact hw

/-- A file with these program headers, behind the ELF header, and zeros behind them. -/
def elfBytes (phs : List ProgHdr) : List UInt8 :=
  leBytes 4 0x464C457F ++ List.replicate 24 0 ++ leBytes 4 52 ++ List.replicate 12 0 ++ leBytes 2 phs.length ++
    List.replicate 6 0 ++ phs.flatMap fun ph => [ph.type, ph.offset, ph.va, 0, ph.filesz, ph.memsz, ph.flags,
      0].flatMap (leBytes 4)

/-- The file of these bytes, which can be read. -/
def elfFile (phs : List ProgHdr) : File :=
  ⟨fun i => (elfBytes phs).getD i 0, fun _ offset => 2 ^ 31 ≤ offset, fun _ _ h => decide_eq_true h⟩

/-- An address space without VMAs and pages. -/
def emptyMm : St Mem :=
  ⟨⟨0, fun _ => ⟨0, 0⟩, ⟨fun _ => none, 0⟩⟩, mmCreate 0 0 (fun _ => ⟨0, 0, 0, 0, none, 0⟩) fun _ => ⟨false, 0, 0, 0⟩⟩

/-- `load_icode` of such a file on the i386, when there is memory. -/
def loadFile (phs : List ProgHdr) : Except Fail (St Mem × ℕ) :=
  loadIcode Layout.i386 (fun _ => some zero) bumpKmalloc (elfFile phs) emptyMm

/-- A segment that may not be written, and then one that may. -/
def codeFirst : List ProgHdr := [⟨1, 0, 0x800000, 1, 1, 5⟩, ⟨1, 0, 0x900000, 1, 1, 6⟩]

/-- The page of the first segment is not writable. -/
theorem page_writable_iff_codeFirst : ∃ s' brk page, loadFile codeFirst = .ok (s', brk) ∧
    s'.kernel.pages.pages 0x800000 = some page ∧ page.seg = 0 ∧
      (page.uWrite = true ↔ ∃ j ≤ page.seg, (elfFile codeFirst).Writes j) := by
  have hrun : ((loadFile codeFirst).toOption.bind fun r => (r.1.kernel.pages.pages 0x800000).map Page.seg) =
      some 0 := by decide +kernel
  obtain ⟨⟨s', brk⟩, hload, hmap⟩ := exists_ok_of_bind hrun
  obtain ⟨page, hpage, hseg⟩ := Option.map_eq_some_iff.mp hmap
  exact ⟨s', brk, page, hload, hpage, hseg, ((page_writable_iff _ _ _ _ _ s' brk (mmCreate_inv _ _ _ _) rfl
    hload).1 _ page hpage).2.2⟩

/-- A segment that may be written, and then one that may not: the page of the second one is writable. -/
theorem page_writable_behind_data : ∃ s' brk page,
    loadFile [⟨1, 0, 0x800000, 1, 1, 6⟩, ⟨1, 0, 0x900000, 1, 1, 5⟩] = .ok (s', brk) ∧
      s'.kernel.pages.pages 0x900000 = some page ∧ page.seg = 1 ∧ page.uWrite = true ∧
      (⟨1, 0, 0x900000, 1, 1, 5⟩ : ProgHdr).writes = false := by
  have hrun : ((loadFile [⟨1, 0, 0x800000, 1, 1, 6⟩, ⟨1, 0, 0x900000, 1, 1, 5⟩]).toOption.bind fun r =>
      (r.1.kernel.pages.pages 0x900000).map fun page => (page.seg, page.uWrite)) = some (1, true) := by
    decide +kernel
  obtain ⟨⟨s', brk⟩, hload, hmap⟩ := exists_ok_of_bind hrun
  obtain ⟨page, hpage, hvalues⟩ := Option.map_eq_some_iff.mp hmap
  obtain ⟨hseg, hwrite⟩ := Prod.mk.inj hvalues
  exact ⟨s', brk, page, hload, hpage, hseg, hwrite, by decide⟩

end UcoreKernel.LoadIcode
