import Mathlib.Data.List.TakeWhile
import UcoreKernel.Lib.ByteBlock
import UcoreKernel.Lib.Except

/-!
The blocks of an SFS volume: `fs/sfs/sfs_io.c`, the block allocation of `fs/sfs/sfs_inode.c`, and the
records that are stored in blocks.

The device succeeds, so reading and writing a block fails only where an assertion does. The freemap is
the set of free bits that `bitmap.c` keeps in words; `bitmap_alloc` takes the lowest one.
-/

namespace UcoreKernel.Sfs

open ByteBlock Function List

/-- `SFS_BLKSIZE`. -/
def blkSize : ℕ := 4096

/-- `SFS_BLKBITS`. -/
def blkBits : ℕ := blkSize * 8

/-- `SFS_NDIRECT`. -/
def ndirect : ℕ := 12

/-- `SFS_BLK_NENTRY`. -/
def nentry : ℕ := blkSize / 4

/-- `SFS_BLKN_ROOT`. -/
def blknRoot : ℕ := 1

/-- The assertions that can fail. -/
inductive Panic where
  /-- `sfs_block_inuse`: `panic("sfs_block_inuse: called out of range (0, %u) %u.\n", ...)` -/
  | inuseRange
  /-- `assert(sfs_block_inuse(sfs, ino))` -/
  | notInuse
  /-- `sfs_block_alloc`: `assert(sfs->super.unused_blocks > 0)` -/
  | noUnused
  /-- `sfs_rwblock_nolock`: `assert((blkno != 0 || !check) && blkno < sfs->super.blocks)` -/
  | ioRange
  /-- `sfs_rbuf`, `sfs_wbuf`: `assert(offset >= 0 && offset < SFS_BLKSIZE && ...)` -/
  | bufRange
  /-- `sfs_bmap_get_sub_nolock`, `sfs_bmap_free_sub_nolock`: `assert(index < SFS_BLK_NENTRY)` -/
  | nentry
  /-- `sfs_bmap_get_nolock`: `assert(din->indirect == 0)`, `assert(din->db_indirect == 0)` -/
  | indirectSet
  /-- `sfs_bmap_load_nolock`: `assert(index <= din->blocks)` -/
  | loadIndex
  /-- `sfs_bmap_truncate_nolock`: `assert(din->blocks != 0)` -/
  | truncateEmpty
  /-- `assert(din->type != SFS_TYPE_DIR)` -/
  | isDir
  /-- `sfs_truncfile`: `assert(tblks == din->blocks)` -/
  | truncfileBlocks
  /-- `sfs_dirent_read_nolock`, `sfs_dirent_write_nolock`: the assertion on the type and the slot -/
  | direntSlot
  /-- `assert(strlen(name) <= SFS_MAX_FNAME_LEN)` -/
  | nameLen
  /-- `sfs_dirent_unlink_nolock`: `assert(slots != 0 && nlinks != 0)` -/
  | unlinkCount
  /-- `sfs_nlinks_dec_nolock`: `assert(sin->din->nlinks != 0)` -/
  | nlinksDec
  /-- `sfs_load_inode`: `assert(din->nlinks != 0)` -/
  | loadNlinks
  /-- `sfs_get_ops`: `panic("invalid file type %d.\n", type)` -/
  | fileType
  /-- `sfs_mkdir_nolock`: the assertions on an inode whose entry could not be written -/
  | unlinkedNode
  /-- `inode_ref_dec`: `assert(inode_ref_count(node) > 0)` -/
  | refCount
  /-- `sfs_reclaim`: `assert(sin->reclaim_count > 0)` -/
  | reclaimCount
  /-- No assertion: a thread waits for the semaphore of an inode that it holds itself. -/
  | selfLock
deriving DecidableEq

/-- A mounted volume: the superblock, the freemap and the blocks of the device. -/
structure Fs where
  blocks : ℕ
  unusedBlocks : ℕ
  superDirty : Bool
  free : ℕ → Bool
  disk : ℕ → Block

/-- The first free bit from `i` on, among the bits that are left. -/
def firstFree (free : ℕ → Bool) : ℕ → ℕ → Option ℕ
  | 0, _ => none
  | left + 1, i => if free i then some i else firstFree free left (i + 1)

namespace Fs

variable (fs : Fs) (blkno : ℕ)

/-- `sfs_freemap_bits`. -/
def freemapBits : ℕ := (fs.blocks + blkBits - 1) / blkBits * blkBits

/-- `bitmap_alloc`. -/
def bitmapAlloc : Option ℕ := firstFree fs.free fs.freemapBits 0

/-- `sfs_block_inuse`. -/
def blockInuse : Except Panic Bool :=
  if blkno ≠ 0 ∧ blkno < fs.blocks then .ok !fs.free blkno else .error .inuseRange

/-- `assert(sfs_block_inuse(sfs, ino))`. -/
def assertInuse : Except Panic Unit := do
  if ← fs.blockInuse blkno then return else throw .notInuse

/-- The assertion of `sfs_rwblock_nolock`. -/
def rwCheck : Except Panic Unit :=
  if blkno ≠ 0 ∧ blkno < fs.blocks then .ok () else .error .ioRange

/-- One block replaced. -/
def setBlock (b : Block) : Fs := { fs with disk := update fs.disk blkno b }

/-- `sfs_clear_block`, for one block. -/
def clearBlock : Except Panic Fs := do
  fs.rwCheck blkno
  return fs.setBlock blkno zero

/-- `sfs_rbuf`. -/
def rbuf (len offset : ℕ) : Except Panic (List UInt8) :=
  if offset < blkSize ∧ offset + len ≤ blkSize then do
    fs.rwCheck blkno
    return read (fs.disk blkno) offset len
  else .error .bufRange

/-- `sfs_wbuf`. -/
def wbuf (bytes : List UInt8) (offset : ℕ) : Except Panic Fs :=
  if offset < blkSize ∧ offset + bytes.length ≤ blkSize then do
    fs.rwCheck blkno
    return fs.setBlock blkno (write (fs.disk blkno) offset bytes)
  else .error .bufRange

/-- `sfs_rblock`, for one block. -/
def rblock : Except Panic (List UInt8) := do
  fs.rwCheck blkno
  return read (fs.disk blkno) 0 blkSize

/-- `sfs_wblock`, for one block. -/
def wblock (bytes : List UInt8) : Except Panic Fs := do
  fs.rwCheck blkno
  return fs.setBlock blkno (write (fs.disk blkno) 0 bytes)

/-- `sfs_block_alloc`; the result is `none` for `-E_NO_MEM`. -/
def blockAlloc : Except Panic (Fs × Option ℕ) :=
  match fs.bitmapAlloc with
  | none => .ok (fs, none)
  | some ino =>
    if fs.unusedBlocks = 0 then .error .noUnused
    else do
      let fs := { fs with
        free := update fs.free ino false
        unusedBlocks := fs.unusedBlocks - 1
        superDirty := true }
      fs.assertInuse ino
      let fs ← fs.clearBlock ino
      return (fs, some ino)

/-- `sfs_block_free`. -/
def blockFree : Except Panic Fs := do
  fs.assertInuse blkno
  return { fs with
    free := update fs.free blkno true
    unusedBlocks := fs.unusedBlocks + 1
    superDirty := true }

end Fs

/-! ### Records in blocks -/

/-- The types of `struct sfs_disk_inode`. -/
inductive FileType where
  | inval
  | file
  | dir
  | link
deriving DecidableEq

namespace FileType

/-- `SFS_TYPE_*`. -/
def toWord : FileType → ℕ
  | inval => 0
  | file => 1
  | dir => 2
  | link => 3

/-- The type with a number; there are no others. -/
def ofWord : ℕ → FileType
  | 1 => file
  | 2 => dir
  | 3 => link
  | _ => inval

lemma ofWord_toWord (t : FileType) : ofWord t.toWord = t := by cases t <;> rfl

lemma toWord_lt (t : FileType) : t.toWord < 2 ^ 16 := by cases t <;> decide

end FileType

/-- `struct sfs_disk_inode`. The first word is `fileinfo.size` or `dirinfo.slots`. -/
@[ext] structure Din where
  size : ℕ
  parent : ℕ
  type : FileType
  nlinks : BitVec 16
  blocks : ℕ
  direct : Fin ndirect → ℕ
  indirect : ℕ
  dbIndirect : ℕ

namespace Din

-- not derived: the derived instance is stuck on `direct` functions that differ as terms
instance : DecidableEq Din := fun _ _ => decidable_of_iff' _ Din.ext_iff

/-- `dirinfo.slots`. -/
def slots (din : Din) : ℕ := din.size

/-- The words of an inode on disk. -/
def toWords (din : Din) : List ℕ :=
  [din.size, din.parent, din.type.toWord + 2 ^ 16 * din.nlinks.toNat, din.blocks] ++
    List.ofFn din.direct ++ [din.indirect, din.dbIndirect]

/-- The inode that a block holds. -/
def ofBlock (b : Block) : Din where
  size := word b 0
  parent := word b 1
  type := .ofWord (word b 2 % 2 ^ 16)
  nlinks := BitVec.ofNat 16 (word b 2 / 2 ^ 16)
  blocks := word b 3
  direct i := word b (4 + i)
  indirect := word b 16
  dbIndirect := word b 17

/-- The numbers fit their words. -/
structure Fits (din : Din) : Prop where
  size : din.size < 2 ^ 32
  parent : din.parent < 2 ^ 32
  blocks : din.blocks < 2 ^ 32
  direct : ∀ i, din.direct i < 2 ^ 32
  indirect : din.indirect < 2 ^ 32
  dbIndirect : din.dbIndirect < 2 ^ 32

lemma length_toWords (din : Din) : din.toWords.length = 18 := by
  have hlen : (ofFn din.direct).length = 12 := length_ofFn
  simp [toWords, hlen]

lemma toWords_head (din : Din) : din.toWords.getD 0 0 = din.size ∧ din.toWords.getD 1 0 = din.parent ∧
      din.toWords.getD 2 0 = din.type.toWord + 2 ^ 16 * din.nlinks.toNat ∧
      din.toWords.getD 3 0 = din.blocks := by
  simp [toWords]

lemma toWords_direct (din : Din) (i : Fin ndirect) : din.toWords.getD (4 + i) 0 = din.direct i := by
  grind [toWords]

lemma toWords_tail (din : Din) :
    din.toWords.getD 16 0 = din.indirect ∧ din.toWords.getD 17 0 = din.dbIndirect := by
  have hlen : (ofFn din.direct).length = 12 := length_ofFn
  simp [toWords, hlen]

/-- An inode is read back from the block it was written to. -/
lemma ofBlock_setWords {din : Din} (h : din.Fits) (b : Block) : ofBlock (setWords b din.toWords) = din := by
  have hword : ∀ i < 18, ∀ n < 2 ^ 32, din.toWords.getD i 0 = n →
      word (setWords b din.toWords) i = n := by grind [word_setWords, length_toWords]
  obtain ⟨hget0, hget1, hget2, hget3⟩ := din.toWords_head
  have htype := din.type.toWord_lt
  have h2 := hword 2 (by norm_num) _ (by omega) hget2
  have hdirect : (fun i : Fin ndirect => word (setWords b din.toWords) (4 + i)) = din.direct := by
    funext i
    have hi : (i : ℕ) < 12 := i.isLt
    exact hword (4 + i) (by omega) _ (h.direct i) (din.toWords_direct i)
  have hmod : (din.type.toWord + 2 ^ 16 * din.nlinks.toNat) % 2 ^ 16 = din.type.toWord := by omega
  have hdiv : (din.type.toWord + 2 ^ 16 * din.nlinks.toNat) / 2 ^ 16 = din.nlinks.toNat := by omega
  rw [ofBlock, h2, hmod, hdiv, hdirect, FileType.ofWord_toWord, BitVec.ofNat_toNat,
    BitVec.setWidth_eq, hword 0 (by norm_num) _ h.size hget0, hword 1 (by norm_num) _ h.parent hget1,
    hword 3 (by norm_num) _ h.blocks hget3,
    hword 16 (by norm_num) _ h.indirect din.toWords_tail.1,
    hword 17 (by norm_num) _ h.dbIndirect din.toWords_tail.2]

end Din

/-- A string of C: bytes without the one that ends it. -/
@[ext]
structure Name where
  bytes : List UInt8
  nul : 0 ∉ bytes
deriving DecidableEq

namespace Name

/-- `SFS_MAX_FNAME_LEN`. -/
def maxFnameLen : ℕ := 255

/-- `strlen`. -/
def strlen (name : Name) : ℕ := name.bytes.length

/-- The string that starts a buffer. -/
def ofBuffer (bytes : List UInt8) : Name where
  bytes := bytes.takeWhile fun x => decide (x ≠ 0)
  nul h := by simpa using List.mem_takeWhile_imp h

/-- The string that ends at the first zero after it. -/
lemma ofBuffer_append (name : Name) (rest : List UInt8) : ofBuffer (name.bytes ++ 0 :: rest) = name := by
  refine Name.ext ?_
  have hall : ∀ x ∈ name.bytes, decide (x ≠ 0) = true := fun x hx =>
    decide_eq_true fun h0 : x = 0 => name.nul (h0 ▸ hx)
  change takeWhile _ _ = _
  rw [takeWhile_append_of_pos hall, takeWhile_cons_of_neg (by simp), append_nil]

end Name

/-- `struct sfs_disk_entry`. -/
structure Dirent where
  ino : ℕ
  name : Name
deriving DecidableEq

namespace Dirent

/-- An entry that is cleared, as in an empty slot. -/
def empty : Dirent := ⟨0, ⟨[], by simp⟩⟩

/-- The bytes of an entry; the rest of the name is zero. -/
def toBytes (e : Dirent) : List UInt8 :=
  leBytes 4 e.ino ++ (e.name.bytes ++ List.replicate (Name.maxFnameLen + 1 - e.name.strlen) 0)

/-- The entry that a block holds; the last byte of the name is taken to be zero. -/
def ofBlock (b : Block) : Dirent where
  ino := word b 0
  name := .ofBuffer (read b 4 Name.maxFnameLen ++ [0])

/-- An entry that fits the block. -/
structure Fits (e : Dirent) : Prop where
  ino : e.ino < 2 ^ 32
  name : e.name.strlen ≤ Name.maxFnameLen

variable {e : Dirent}

lemma length_toBytes (h : e.name.strlen ≤ Name.maxFnameLen) :
    e.toBytes.length = 260 := by grind [toBytes, length_leBytes, Name.strlen, Name.maxFnameLen]

/-- An entry is read back from the block it was written to. -/
lemma ofBlock_write (h : e.Fits) (b : Block) : ofBlock (write b 0 e.toBytes) = e := by
  have hlen := length_toBytes h.name
  have hname : e.name.bytes.length ≤ 255 := h.name
  have hino : word (write b 0 e.toBytes) 0 = e.ino := by
    have hread := read_write b 0 (show 0 + 4 ≤ e.toBytes.length by omega)
    have htake : e.toBytes.take 4 = leBytes 4 e.ino := by
      simp [toBytes]
    rw [word, hread, drop_zero, htake, leNat_leBytes, show 256 ^ 4 = 2 ^ 32 by norm_num, Nat.mod_eq_of_lt h.ino]
  have hrest : read (write b 0 e.toBytes) 4 255 ++ [0] =
      e.name.bytes ++ 0 :: replicate (255 - e.name.bytes.length) 0 := by
    have hread := read_write b 0 (show 4 + 255 ≤ e.toBytes.length by omega)
    have hdrop : e.toBytes.drop 4 = e.name.bytes ++ replicate (256 - e.name.bytes.length) 0 := by
      simp [toBytes, Name.strlen, Name.maxFnameLen]
    rw [hread, hdrop, take_append, take_of_length_le hname, take_replicate,
      append_assoc, ← replicate_succ, ← replicate_succ']
    congr 2
    omega
  rw [ofBlock, hino]
  rw [Name.maxFnameLen, hrest, Name.ofBuffer_append]

end Dirent

/-! ### Blocks that are in use -/

namespace Fs

variable {fs : Fs} {b c : ℕ}

/-- The block exists and is marked as used. -/
def Used (fs : Fs) (b : ℕ) : Prop := b ≠ 0 ∧ b < fs.blocks ∧ fs.free b = false

instance (fs : Fs) (b : ℕ) : Decidable (fs.Used b) := inferInstanceAs (Decidable (_ ∧ _))

/-- The number of free bits of the freemap. -/
def freeBits (fs : Fs) : ℕ := ((Finset.range fs.freemapBits).filter (fs.free ·)).card

/-- A free block is taken and cleared. -/
def take (fs : Fs) (b : ℕ) : Fs where
  blocks := fs.blocks
  unusedBlocks := fs.unusedBlocks - 1
  superDirty := true
  free := update fs.free b false
  disk := update fs.disk b zero

/-- A block is given back. -/
def give (fs : Fs) (b : ℕ) : Fs where
  blocks := fs.blocks
  unusedBlocks := fs.unusedBlocks + 1
  superDirty := true
  free := update fs.free b true
  disk := fs.disk

end Fs

/-- The free bits are real blocks, and `unused_blocks` is their number. -/
structure FsOk (fs : Fs) : Prop where
  blocks : fs.blocks ≤ 2 ^ 32
  free : ∀ b, fs.free b = true → b ≠ 0 ∧ b < fs.blocks
  unused : fs.unusedBlocks = fs.freeBits

variable {fs : Fs} {b c : ℕ}

lemma Fs.not_used (hb : fs.free b = true) : ¬fs.Used b := by
  rintro ⟨-, -, hused⟩
  rw [hb] at hused
  cases hused

lemma Fs.le_freemapBits (fs : Fs) : fs.blocks ≤ fs.freemapBits := by
  have h := Nat.div_add_mod (fs.blocks + blkBits - 1) blkBits
  have hlt := Nat.mod_lt (fs.blocks + blkBits - 1) (show 0 < blkBits by decide)
  grind [Fs.freemapBits]

namespace FsOk

lemma mem_freeBits (h : FsOk fs) (hb : fs.free b = true) :
    b ∈ (Finset.range fs.freemapBits).filter (fs.free ·) := by
  have hlt := (h.free b hb).2
  have hle := fs.le_freemapBits
  grind

end FsOk

namespace Fs

lemma used_take : (fs.take b).Used c ↔ fs.Used c ∨ (c = b ∧ b ≠ 0 ∧ b < fs.blocks) := by
  obtain rfl | hcb := eq_or_ne c b
  · simp only [Used, take, update_self, and_true, true_and]
    tauto
  · simp [Used, take, hcb]

lemma used_give : (fs.give b).Used c ↔ fs.Used c ∧ c ≠ b := by
  obtain rfl | hcb := eq_or_ne c b
  · simp [Used, give]
  · simp [Used, give, hcb]

@[simp] lemma used_setBlock (blk : Block) : (fs.setBlock b blk).Used c ↔ fs.Used c := Iff.rfl

end Fs

lemma FsOk.take (h : FsOk fs) (hb : fs.free b = true) : FsOk (fs.take b) := by
  refine ⟨h.blocks, fun c hc => ?_, ?_⟩
  · obtain rfl | hcb := eq_or_ne c b
    · exact h.free c hb
    · simp only [Fs.take, update_of_ne hcb] at hc
      exact h.free c hc
  · have herase : (Finset.range fs.freemapBits).filter (update fs.free b false ·) =
        ((Finset.range fs.freemapBits).filter (fs.free ·)).erase b := by grind
    have hcard := Finset.card_erase_of_mem (h.mem_freeBits hb)
    rw [← herase] at hcard
    have hunused := h.unused
    exact (congrArg (· - 1) hunused).trans hcard.symm

lemma FsOk.give (h : FsOk fs) (hb : fs.Used b) : FsOk (fs.give b) := by
  refine ⟨h.blocks, fun c hc => ?_, ?_⟩
  · obtain rfl | hcb := eq_or_ne c b
    · exact ⟨hb.1, hb.2.1⟩
    · simp only [Fs.give, update_of_ne hcb] at hc
      exact h.free c hc
  · have hle := fs.le_freemapBits
    have hmem : b ∉ (Finset.range fs.freemapBits).filter (fs.free ·) := by simp [hb.2.2]
    have hinsert : (Finset.range fs.freemapBits).filter (update fs.free b true ·) =
        insert b ((Finset.range fs.freemapBits).filter (fs.free ·)) := by
      ext c
      obtain rfl | hcb := eq_or_ne c b
      · simp only [Finset.mem_filter, Finset.mem_range, update_self, and_true, Finset.mem_insert, true_or, iff_true]
        exact lt_of_lt_of_le hb.2.1 hle
      · simp [hcb]
    have hcard := Finset.card_insert_of_notMem hmem
    rw [← hinsert] at hcard
    have hunused := h.unused
    exact (congrArg (· + 1) hunused).trans hcard.symm

lemma FsOk.setBlock (h : FsOk fs) (b : ℕ) (blk : Block) : FsOk (fs.setBlock b blk) :=
  { h with }

/-! ### What the functions do -/

namespace Fs

variable (h : fs.Used b)
include h

lemma assertInuse_of_used : fs.assertInuse b = .ok () := by
  simp [assertInuse, blockInuse, h.1, h.2.1, h.2.2]

lemma rwCheck_of_used : fs.rwCheck b = .ok () := if_pos ⟨h.1, h.2.1⟩

lemma rbuf_of_used {len offset : ℕ} (hoff : offset < blkSize)
    (hlen : offset + len ≤ blkSize) : fs.rbuf b len offset = .ok (read (fs.disk b) offset len) := by
  rw [rbuf, if_pos ⟨hoff, hlen⟩, rwCheck_of_used h]
  rfl

lemma wbuf_of_used (bytes : List UInt8) {offset : ℕ} (hoff : offset < blkSize)
    (hlen : offset + bytes.length ≤ blkSize) :
    fs.wbuf b bytes offset = .ok (fs.setBlock b (write (fs.disk b) offset bytes)) := by
  rw [wbuf, if_pos ⟨hoff, hlen⟩, rwCheck_of_used h]
  rfl

end Fs

variable {free : ℕ → Bool} {left i : ℕ}

lemma firstFree_eq_none (h : firstFree free left i = none) : ∀ c, i ≤ c → c < i + left → free c = false := by
  induction left generalizing i with
  | zero =>
    intro c hic hc
    omega
  | succ left ih => grind [firstFree]

lemma firstFree_eq_some (h : firstFree free left i = some b) :
    free b = true ∧ ∀ c, i ≤ c → c < b → free c = false := by
  induction left generalizing i with
  | zero => cases h
  | succ left ih =>
    rw [firstFree] at h
    split_ifs at h with hi
    · grind
    · obtain ⟨hb, hlow⟩ := ih h
      grind

/-- An allocation takes the lowest free block and clears it, or fails for want of one. -/
lemma blockAlloc_spec (h : FsOk fs) : (fs.unusedBlocks = 0 ∧ fs.blockAlloc = .ok (fs, none)) ∨
      ∃ b, fs.free b = true ∧ (∀ c < b, fs.free c = false) ∧ 0 < fs.unusedBlocks ∧
        fs.blockAlloc = .ok (fs.take b, some b) := by
  rw [Fs.blockAlloc]
  cases halloc : fs.bitmapAlloc with
  | none =>
    refine .inl ⟨?_, rfl⟩
    rw [h.unused, Fs.freeBits, Finset.card_eq_zero, Finset.filter_eq_empty_iff]
    intro c hc
    have := firstFree_eq_none halloc c (Nat.zero_le c) (by simpa using hc)
    simpa using this
  | some b =>
    obtain ⟨hb, hlow⟩ := firstFree_eq_some halloc
    have hlow : ∀ c < b, fs.free c = false := fun c hc => hlow c (Nat.zero_le c) hc
    have hpos : 0 < fs.unusedBlocks := by
      rw [h.unused, Fs.freeBits, Finset.card_pos]
      exact ⟨b, h.mem_freeBits hb⟩
    have hrange := h.free b hb
    refine .inr ⟨b, hb, hlow, hpos, ?_⟩
    have hused : ({ fs with
        free := update fs.free b false
        unusedBlocks := fs.unusedBlocks - 1
        superDirty := true } : Fs).Used b := ⟨hrange.1, hrange.2, update_self ..⟩
    dsimp only
    rw [if_neg (by omega), Fs.assertInuse_of_used hused, ok_bind, Fs.clearBlock, Fs.rwCheck_of_used hused]
    rfl

/-- A block that is in use is given back. -/
lemma blockFree_spec (hb : fs.Used b) : fs.blockFree b = .ok (fs.give b) := by
  rw [Fs.blockFree, Fs.assertInuse_of_used hb]
  rfl

end UcoreKernel.Sfs
