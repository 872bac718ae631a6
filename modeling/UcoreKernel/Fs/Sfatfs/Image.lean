import UcoreKernel.Fs.Sfatfs.Volume

/-!
The image builder of the simple FAT file system, `ht-mksfatfs/mksfatfs.c`, and what becomes of the number
of unused blocks when the kernel mounts an image.

The builder counts from the number of blocks of the image, and the kernel counts the free entries of a
table that always has 2048; the builder does not count the block of an empty file.

* `unusedBlocks_iff`: an image is mounted and the count stays right exactly when the two differences
  cancel out and no operation of the run, creating files apart, takes or frees a block.
-/

namespace UcoreKernel.Sfatfs

open Guarded Function List

/-- A name in the directory, with what `lstat` and `read` say about it. -/
structure HostFile where
  name : List UInt8
  isReg : Bool
  size : ℕ
deriving DecidableEq

/-- What the builder complains about, and a write behind its table. -/
inductive Bug where
  | imgTooSmall
  | tooManyFiles
  | noFreeSpace
  | nameTooLong
  | outOfTable
deriving DecidableEq

/-- `struct sfatfs` of the builder -/
structure Builder where
  unusedBlocks : BitVec 32
  fat : Fat
  rootdir : ℕ → Din
  ndirentry : ℕ
  ninos : ℕ
  nextIno : ℕ

/-- The number of blocks that an image of a size has for the builder. -/
def ninosOf (stSize : ℕ) : ℕ := min (stSize / blkSize % 2 ^ 32) blkNentry

/-- `create_fs` -/
def createFs (stSize : ℕ) : Except Bug Builder :=
  if ninosOf stSize < 2 then .error .imgTooSmall
  else .ok
    { unusedBlocks := BitVec.ofNat 32 (ninosOf stSize) - 2
      fat := fun i => if i < 2 then fatReserve else fatFree
      rootdir := fun _ => ⟨[], 0, 0, 0⟩
      ndirentry := 0
      ninos := ninosOf stSize
      nextIno := 2 }

/-- The loop of `add_file` that copies blocks. -/
def copyLoop : ℕ → Builder → Except Bug Builder
  | 0, fs => .ok fs
  | n + 1, fs =>
    if fs.ninos ≤ fs.nextIno then .error .noFreeSpace
    else copyLoop n { fs with nextIno := fs.nextIno + 1, unusedBlocks := fs.unusedBlocks - 1 }

/-- The loop of `add_file` that links `n + 1` blocks from `p` on. -/
def linkLoop : ℕ → ℕ → Fat → Except Bug Fat
  | 0, p, fat => if p < blkNentry then .ok (update fat p fatEof) else .error .outOfTable
  | n + 1, p, fat =>
    if p < blkNentry then linkLoop n (p + 1) (update fat p (p + 1)) else .error .outOfTable

/-- The number of reads that return something. -/
def HostFile.chunks (f : HostFile) : ℕ := (f.size + blkSize - 1) / blkSize

/-- `add_file` -/
def addFile (fs : Builder) (f : HostFile) : Except Bug Builder :=
  let stb := fs.nextIno
  let filesize := f.size % 2 ^ 32
  if 512 * 3 < fs.ndirentry * 24 then .error .tooManyFiles
  else do
    let fs ← copyLoop f.chunks fs
    let nextIno := if filesize = 0 then fs.nextIno + 1 else fs.nextIno
    let fat ← linkLoop (nextIno - 1 - stb) stb fs.fat
    return { fs with
      nextIno := nextIno
      fat := fat
      rootdir := update fs.rootdir fs.ndirentry ⟨f.name, 0x21, stb, filesize⟩
      ndirentry := fs.ndirentry + 1 }

/-- The first two entries of `open_dir`. -/
def dotEntries (fs : Builder) : Builder :=
  { fs with
    rootdir := update (update fs.rootdir 0 ⟨[46], 0x12, 0, 0⟩) 1 ⟨[46, 46], 0x12, 0, 0⟩
    ndirentry := fs.ndirentry + 2 }

/-- One name of the directory in `open_dir`. -/
def addEntry (fs : Builder) (f : HostFile) : Except Bug Builder :=
  if f.name.head? = some 46 then .ok fs
  else if maxFnameLen < f.name.length then .error .nameTooLong
  else if f.isReg then addFile fs f
  else .ok fs

/-- `create_img`: the image that is written. -/
def mksfatfs (stSize : ℕ) (files : List HostFile) : Except Bug Disk := do
  let fs ← createFs stSize
  let fs ← files.foldlM addEntry (dotEntries fs)
  return {
    blocks := stSize / blkSize
    super := ⟨sfatfsMagic, fs.ninos, fs.unusedBlocks, fs.ndirentry⟩
    dinos := fs.rootdir
    fat := fs.fat }

/-- The files that `open_dir` adds. -/
def HostFile.added (f : HostFile) : Bool := f.name.head? ≠ some 46 && f.isReg

/-- The empty files of a directory. -/
def emptyFiles (files : List HostFile) : ℕ := files.countP fun f => f.added && f.size = 0

/-! ### The loops -/

variable {fs fs' : Builder} {fat fat' : Fat} {chunks empties : ℕ}

variable {n : ℕ}

lemma copyLoop_eq (h : copyLoop n fs = .ok fs') : fs' = { fs with
      nextIno := fs.nextIno + n
      unusedBlocks := fs.unusedBlocks - BitVec.ofNat 32 n } ∧ (0 < n → fs.nextIno + n ≤ fs.ninos) := by
  induction n generalizing fs with
  | zero =>
    cases h
    exact ⟨by simp, fun hlt => absurd hlt (lt_irrefl 0)⟩
  | succ n ih =>
    rw [copyLoop] at h
    split_ifs at h with hfull
    obtain ⟨rfl, hle⟩ := ih h
    refine ⟨?_, fun _ => ?_⟩
    · simp only [Builder.mk.injEq, true_and]
      exact ⟨by bv_omega, by omega⟩
    · grind

variable {p : ℕ}

/-- Blocks from `p` to `p + n` are linked to each other. -/
lemma linkLoop_eq (h : linkLoop n p fat = .ok fat') : p + n < blkNentry ∧ ∀ i, fat' i =
      if p ≤ i ∧ i < p + n then i + 1 else if i = p + n then fatEof else fat i := by
  induction n generalizing p fat with
  | zero =>
    rw [linkLoop] at h
    split_ifs at h with hp
    cases h
    grind
  | succ n ih => grind [linkLoop]

/-- The list of the blocks that were linked. -/
lemma linkLoop_blocks (h : linkLoop n p fat = .ok fat') : Blocks fat' p (range' p (n + 1)) := by
  obtain ⟨hlt, hfat⟩ := linkLoop_eq h
  have hmem : ∀ i ∈ range' p (n + 1), p ≤ i ∧ i ≤ p + n := fun i hi => by
    have := mem_range'_1.mp hi
    omega
  have hend : blkNentry < fatEof := by decide
  refine {
    chain := indexChain_range' rfl (Nat.succ_pos n) (fun i hi => ?_) fun i hi hin => ?_
    nonempty := by simp
    nodup := nodup_range'
    lt := fun i hi => (hmem i hi).2.trans_lt hlt
    used := fun i hi => ?_ }
  · omega
  · rw [hfat i]
    split_ifs <;> omega
  · have := hmem i hi
    rw [hfat i]
    split_ifs with h1 h2
    · exact Nat.succ_ne_zero i
    · decide
    · omega

variable {firstCluster : ℕ} {l : List ℕ}

/-- Lists before the new blocks stay as they are. -/
lemma Blocks.of_linkLoop (hb : Blocks fat firstCluster l)
    (hlt : ∀ i ∈ l, i < p) (h : linkLoop n p fat = .ok fat') : Blocks fat' firstCluster l := by
  obtain ⟨-, hfat⟩ := linkLoop_eq h
  have hEq : ∀ i ∈ l, fat' i = fat i := fun i hi => by grind
  refine { hb with
    chain := hb.chain.congr hEq
    used := fun i hi => ?_ }
  rw [hEq i hi]
  exact hb.used i hi

/-! ### What is built -/

/-- After `chunks` blocks of files and `empties` empty files. -/
structure Built (fs : Builder) (chunks empties : ℕ) : Prop where
  next : fs.nextIno = 2 + chunks + empties
  le : fs.nextIno ≤ blkNentry
  unused : fs.unusedBlocks + BitVec.ofNat 32 (2 + chunks) = BitVec.ofNat 32 fs.ninos
  free : ∀ i, fs.fat i = fatFree ↔ fs.nextIno ≤ i
  attr : ∀ i < fs.ndirentry, (fs.rootdir i).isDir || (fs.rootdir i).isFile
  blocks : ∀ i < fs.ndirentry, (fs.rootdir i).isDir = false →
    ∃ l, Blocks fs.fat (fs.rootdir i).firstCluster l

/-- The blocks of a file come before the next block. -/
lemma Built.lt_nextIno (h : Built fs chunks empties)
    (hb : Blocks fs.fat firstCluster l) : ∀ i ∈ l, i < fs.nextIno := fun i hi => by
  have hused := hb.used i hi
  rw [Ne, h.free i] at hused
  omega

variable {f : HostFile}

/-- The size of a file that was copied fits in 32 bits. -/
lemma HostFile.size_mod (h : f.chunks ≤ blkNentry) : f.size % 2 ^ 32 = f.size := by
  grind [HostFile.chunks, blkSize, blkNentry]

/-- An empty file is the one that has no blocks to copy. -/
lemma HostFile.chunks_eq_zero_iff : f.chunks = 0 ↔ f.size = 0 := by
  rw [HostFile.chunks, blkSize]
  omega

/-- The blocks that a file takes. -/
def HostFile.taken (f : HostFile) : ℕ := f.chunks + if f.size = 0 then 1 else 0

lemma HostFile.taken_pos (f : HostFile) : 0 < f.taken := by
  rw [HostFile.taken]
  split_ifs with h
  · omega
  · have := mt HostFile.chunks_eq_zero_iff.mp h
    omega

/-- `add_file`, with the loops run. -/
lemma addFile_eq (hninos : fs.ninos ≤ blkNentry) (hadd : addFile fs f = .ok fs') :
    ∃ fat', linkLoop (f.taken - 1) fs.nextIno fs.fat = .ok fat' ∧ fs' = { fs with
      nextIno := fs.nextIno + f.taken
      unusedBlocks := fs.unusedBlocks - BitVec.ofNat 32 f.chunks
      fat := fat'
      rootdir := update fs.rootdir fs.ndirentry ⟨f.name, 0x21, fs.nextIno, f.size⟩
      ndirentry := fs.ndirentry + 1 } := by
  have hmany : ¬512 * 3 < fs.ndirentry * 24 := fun hmany => by
    rw [addFile, if_pos hmany] at hadd
    cases hadd
  rw [addFile, if_neg hmany] at hadd
  obtain ⟨fs1, hcopy, hadd⟩ := bind_eq_ok_iff.mp hadd
  obtain ⟨rfl, hle⟩ := copyLoop_eq hcopy
  have hsize : f.size % 2 ^ 32 = f.size := HostFile.size_mod (by omega)
  obtain ⟨fat', hlink, hadd⟩ := bind_eq_ok_iff.mp hadd
  cases hadd
  grind [HostFile.taken]

section

variable (h : Built fs chunks empties) (hninos : fs.ninos ≤ blkNentry)
include h hninos

/-- A file is added. -/
lemma Built.addFile (hadd : Sfatfs.addFile fs f = .ok fs') :
    Built fs' (chunks + f.chunks) (empties + if f.size = 0 then 1 else 0) ∧ fs'.ninos = fs.ninos := by
  obtain ⟨fat', hlink, rfl⟩ := addFile_eq hninos hadd
  obtain ⟨hlt, hfat⟩ := linkLoop_eq hlink
  have hpos := f.taken_pos
  refine ⟨{
    next := ?_
    le := by dsimp only; omega
    unused := ?_
    free := fun i => ?_
    attr := fun i hi => ?_
    blocks := fun i hi hdir => ?_ }, rfl⟩
  · have := h.next
    simp only [HostFile.taken]
    omega
  · rw [← add_assoc, BitVec.ofNat_add _ f.chunks, ← h.unused]
    bv_omega
  · have hfree := h.free i
    dsimp only
    rw [hfat i]
    split_ifs with h1 h2
    · exact iff_of_false (Nat.succ_ne_zero i) (by omega)
    · exact iff_of_false (by decide) (by omega)
    · rw [hfree]
      omega
  · obtain hi | rfl := Nat.lt_succ_iff_lt_or_eq.mp hi
    · dsimp only
      rw [update_of_ne hi.ne]
      exact h.attr i hi
    · dsimp only
      rw [update_self, Din.isDir, Din.isFile]
      dsimp only
      decide
  · dsimp only at hdir ⊢
    obtain hi | rfl := Nat.lt_succ_iff_lt_or_eq.mp hi
    · rw [update_of_ne hi.ne] at hdir ⊢
      obtain ⟨l, hb⟩ := h.blocks i hi hdir
      exact ⟨l, hb.of_linkLoop (h.lt_nextIno hb) hlink⟩
    · rw [update_self]
      exact ⟨_, linkLoop_blocks hlink⟩

/-- A name of the directory is passed over or added. -/
lemma Built.addEntry (hadd : Sfatfs.addEntry fs f = .ok fs') :
    (∃ chunks', Built fs' chunks' (empties + if f.added && f.size = 0 then 1 else 0)) ∧
      fs'.ninos = fs.ninos := by
  rw [Sfatfs.addEntry] at hadd
  split_ifs at hadd with hdot hlen hreg
  · cases hadd
    exact ⟨⟨chunks, by simpa [HostFile.added, hdot] using h⟩, rfl⟩
  · obtain ⟨hbuilt, hEq⟩ := h.addFile hninos hadd
    grind [HostFile.added]
  · cases hadd
    exact ⟨⟨chunks, by simpa [HostFile.added, hreg] using h⟩, rfl⟩

lemma Built.files {files : List HostFile} (hrun : files.foldlM Sfatfs.addEntry fs = .ok fs') :
    (∃ chunks', Built fs' chunks' (empties + emptyFiles files)) ∧ fs'.ninos = fs.ninos := by
  induction files generalizing fs chunks empties with
  | nil =>
    cases hrun
    exact ⟨⟨chunks, h⟩, rfl⟩
  | cons f files ih =>
    obtain ⟨fs1, hadd, hrest⟩ := bind_eq_ok_iff.mp hrun
    obtain ⟨⟨chunks1, hbuilt⟩, hEq⟩ := h.addEntry hninos hadd
    obtain ⟨⟨chunks2, hbuilt'⟩, hEq'⟩ := ih hbuilt (by rw [hEq]; exact hninos) hrest
    refine ⟨⟨chunks2, ?_⟩, hEq'.trans hEq⟩
    grind [emptyFiles]

end

lemma dotEntries_isDir (fs : Builder) {i : ℕ} (hi : i < 2) : ((dotEntries fs).rootdir i).isDir = true := by
  have hattr : ((dotEntries fs).rootdir i).attr = 0x12 := by
    interval_cases i <;> rfl
  rw [Din.isDir, hattr]
  decide

variable {stSize : ℕ}

/-- The builder starts with two reserved blocks and two entries. -/
lemma createFs_built (h : createFs stSize = .ok fs) :
    Built (dotEntries fs) 0 0 ∧ fs.ninos = ninosOf stSize := by
  rw [createFs] at h
  split_ifs at h with hsmall
  cases h
  refine ⟨{
    next := rfl
    le := (by decide : 2 ≤ blkNentry)
    unused := ?_
    free := fun i => ?_
    attr := fun i hi => by rw [dotEntries_isDir _ hi, Bool.true_or]
    blocks := fun i hi hdir => by
      rw [dotEntries_isDir _ hi] at hdir
      cases hdir }, rfl⟩
  · exact BitVec.sub_add_cancel ..
  · simp only [dotEntries]
    split_ifs with hi
    · exact iff_of_false (by decide) (by omega)
    · exact iff_of_true rfl (by omega)

/-- The number of unused blocks of an image is right exactly when the blocks that the image lacks are
as many as its empty files. -/
lemma Built.good_iff (h : Built fs chunks empties) (hninos : fs.ninos ≤ blkNentry) :
    fs.unusedBlocks = BitVec.ofNat 32 (freeEntries fs.fat) ↔ fs.ninos + empties = blkNentry := by
  have hunused := h.unused
  have hnext := h.next
  have hle := h.le
  have hlarge : blkNentry < 2 ^ 31 := by decide
  rw [freeEntries_of_iff h.free]
  constructor
  · grind [BitVec.toNat_ofNat]
  · intro hEq
    have hsum : fs.ninos = blkNentry - fs.nextIno + (2 + chunks) := by omega
    grind [BitVec.ofNat_add]

variable {files : List HostFile} {img : Disk}

/-- What an image is mounted as. -/
lemma mksfatfs_built (h : mksfatfs stSize files = .ok img) :
    img.super.magic = sfatfsMagic ∧ img.super.blocks ≤ img.blocks ∧
      (Good (mounted img) ↔ ninosOf stSize + emptyFiles files = blkNentry) ∧
      (Good (mounted img) → Inv (mounted img)) := by
  obtain ⟨fs0, hcreate, h⟩ := bind_eq_ok_iff.mp h
  obtain ⟨fs, hfiles, h⟩ := bind_eq_ok_iff.mp h
  cases h
  obtain ⟨hbuilt0, hninos0⟩ := createFs_built hcreate
  have hle : fs0.ninos ≤ blkNentry := hninos0.trans_le (min_le_right ..)
  obtain ⟨⟨chunks, hbuilt⟩, hEq⟩ := hbuilt0.files hle hfiles
  have hninos : fs.ninos = fs0.ninos := hEq
  have hdevice : fs.ninos ≤ stSize / blkSize :=
    calc fs.ninos = ninosOf stSize := hninos.trans hninos0
      _ ≤ stSize / blkSize % 2 ^ 32 := min_le_left ..
      _ ≤ stSize / blkSize := Nat.mod_le ..
  refine ⟨rfl, hdevice, ?_, fun hgood => ?_⟩
  · have hiff := hbuilt.good_iff (hninos.trans_le hle)
    rw [hninos, hninos0, zero_add] at hiff
    exact hiff
  · exact {
      good := hgood
      reserved := fun h0 => by
        have hfree := (hbuilt.free 0).mp h0
        have hnext := hbuilt.next
        omega
      attr := hbuilt.attr
      blocks := hbuilt.blocks
      nodes := fun sin hsin => absurd hsin not_mem_nil
      magic := rfl
      device := hdevice
      clean := fun _ => ⟨rfl, rfl, fun _ _ => rfl⟩ }

/-- Mounting an image that was built fails, if it does, at the assertion. -/
lemma doMount_img (h : mksfatfs stSize files = .ok img) :
    doMount img = if ninosOf stSize + emptyFiles files = blkNentry then .ok (mounted img)
      else .error .unusedBlocks := by
  obtain ⟨hmagic, hdevice, hgood, -⟩ := mksfatfs_built h
  have hassert : BitVec.ofNat 32 (freeEntries img.fat) ≠ img.super.unusedBlocks ↔
      ¬ninosOf stSize + emptyFiles files = blkNentry := by
    rw [← hgood]
    exact ⟨fun hne hEq => hne hEq.symm, fun hne hEq => hne hEq.symm⟩
  rw [doMount, if_neg (by simp [hmagic]), if_neg hdevice.not_gt]
  simp only [hassert, ite_not]

end UcoreKernel.Sfatfs
