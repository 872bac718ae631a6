import UcoreKernel.Fs.Sfatfs.Fat
import UcoreKernel.Lib.Guarded

/-!
A mounted volume of the simple FAT file system: `kern-module/mod-sfatfs/sfatfs_fs.c`, `sfatfs_inode.c`
and `sfatfs_io.c`.

The superblock holds the number of unused blocks, and mounting asserts that it is the number of free
entries in the table. Creating a file counts the block it takes; reading, writing, seeking and
truncating change the table without counting, and without marking the superblock dirty.
-/

namespace UcoreKernel.Sfatfs

open UcoreKernel.Except (Ensures)
open Guarded Function List

/-- `struct sfatfs_disk_inode`; the name is without the zeroes behind it. -/
structure Din where
  name : List UInt8
  attr : UInt8
  firstCluster : ℕ
  size : ℕ
deriving DecidableEq

/-- `struct sfatfs_super` -/
structure Super where
  magic : BitVec 32
  blocks : ℕ
  unusedBlocks : BitVec 32
  ndirentry : ℕ
deriving DecidableEq

/-- The first two blocks of a device, which has `blocks` blocks. -/
structure Disk where
  blocks : ℕ
  super : Super
  dinos : ℕ → Din
  fat : Fat

/-- `struct sfatfs_inode`: every lookup makes one, over the disk inode they share. -/
structure Sin where
  ino : ℕ
  dirty : Bool
deriving DecidableEq

/-- `struct sfatfs_fs`, the inodes that were loaded, and the device. -/
structure Vol where
  super : Super
  fat : Fat
  dinos : ℕ → Din
  superDirty : Bool
  nodes : List Sin
  disk : Disk

/-- Where an operation does not return: the assertions on the number of unused blocks, on a block
number, on the length of a name and on the first block of a file, the attribute of an inode, a walk
along a list without an end, and a mount that is refused. -/
inductive Stop where
  | unusedBlocks
  | blkno
  | fnameLen
  | firstCluster
  | attr
  | endless
  | refused (e : Err)
deriving DecidableEq

def sfatfsMagic : BitVec 32 := 0x55AA7c1d

def blkSize : ℕ := 4096

def maxFnameLen : ℕ := 15

def maxFileSize : ℕ := 1024 * 1024

/-- `SFATFS_FILE_NENTRY` -/
def fileNentry : ℕ := (blkSize - 512) / 24

/-- `attr & SFATFS_TYPE_DIR_MASK` -/
def Din.isDir (din : Din) : Bool := din.attr &&& 0x10 != 0

/-- `attr & SFATFS_TYPE_FILE_MASK` -/
def Din.isFile (din : Din) : Bool := din.attr &&& 0x20 != 0

/-- What of an inode never changes. -/
def Din.entry (din : Din) : UInt8 × ℕ := (din.attr, din.firstCluster)

/-- The volume that a device is mounted as. -/
def mounted (disk : Disk) : Vol where
  super := disk.super
  fat := disk.fat
  dinos := disk.dinos
  superDirty := false
  nodes := []
  disk := disk

/-- `sfatfs_do_mount` -/
def doMount (disk : Disk) : Except Stop Vol :=
  if disk.super.magic ≠ sfatfsMagic then .error (.refused .inval)
  else if disk.blocks < disk.super.blocks then .error (.refused .inval)
  else if BitVec.ofNat 32 (freeEntries disk.fat) ≠ disk.super.unusedBlocks then .error .unusedBlocks
  else .ok (mounted disk)

/-! ### The operations -/

/-- `sfatfs_dirent_search_nolock`: the last of the entries with the name. -/
def direntSearch (v : Vol) (name : List UInt8) : Option ℕ :=
  (List.range v.super.ndirentry).reverse.find? fun ino => (v.dinos ino).name = name

/-- `sfatfs_load_inode`, with the number of the inode in the table. -/
def loadInode (v : Vol) (ino : ℕ) : Except Stop Vol :=
  if (v.dinos ino).isDir || (v.dinos ino).isFile then .ok { v with nodes := v.nodes ++ [⟨ino, false⟩] }
  else .error .attr

/-- `sfatfs_lookup` in the only directory. -/
def lookup (v : Vol) (name : List UInt8) : Except Stop (Vol × Option Err) :=
  if maxFnameLen < name.length then .error .fnameLen
  else
    match direntSearch v name with
    | none => .ok (v, some .noEnt)
    | some ino => do
        let v ← loadInode v ino
        return (v, none)

/-- The new entry of `sfatfs_create`. -/
def created (v : Vol) (name : List UInt8) (bno : ℕ) : Vol :=
  { v with
    super := { v.super with
      ndirentry := v.super.ndirentry + 1
      unusedBlocks := v.super.unusedBlocks - 1 }
    dinos := update v.dinos v.super.ndirentry ⟨name, 0x21, bno, 0⟩
    fat := update v.fat bno fatEof
    superDirty := true }

/-- `sfatfs_create` -/
def create (v : Vol) (name : List UInt8) : Except Stop (Vol × Option Err) :=
  if maxFnameLen < name.length then .ok (v, some .tooBig)
  else if name = [46] ∨ name = [46, 46] then .ok (v, some .exists_)
  else if fileNentry ≤ v.super.ndirentry then .ok (v, some .noMem)
  else
    match bmapFindfree v.fat with
    | none => .ok (v, some .noMem)
    | some bno => do
        let v ← loadInode (created v name bno) v.super.ndirentry
        return (v, none)

/-- The whole blocks of a transfer, with their sizes. -/
def midBlocks (blkno nblks : ℕ) : List (ℕ × ℕ) := (List.range' blkno nblks).map fun b => (b, blkSize)

/-- The last block of a transfer, if it is not whole. -/
def tailBlock (endpos : ℕ) : List (ℕ × ℕ) :=
  if endpos % blkSize ≠ 0 then [(endpos / blkSize, endpos % blkSize)] else []

/-- The blocks of a transfer from `offset` to `endpos`, in the order of `sfatfs_io_nolock`. -/
def ioBlocks (offset endpos : ℕ) : List (ℕ × ℕ) :=
  let blkno := offset / blkSize
  let nblks := endpos / blkSize - blkno
  let blkoff := offset % blkSize
  if blkoff ≠ 0 then
    if nblks = 0 then [(blkno, endpos - offset)]
    else (blkno, blkSize - blkoff) :: (midBlocks (blkno + 1) (nblks - 1) ++ tailBlock endpos)
  else midBlocks blkno nblks ++ tailBlock endpos

/-- The blocks are looked up one after the other, and transferred: the table, the number of bytes so
far, and the error. -/
def ioLoop (blocks firstCluster : ℕ) : List (ℕ × ℕ) → Fat → ℕ → Except Stop (Fat × ℕ × Option Err)
  | [], fat, alen => .ok (fat, alen, none)
  | (index, size) :: rest, fat, alen =>
    match bmapLoad fat firstCluster index with
    | .error e => .ok (fat, alen, some e)
    | .ok (fat', ino) =>
      -- the assertion of `sfatfs_rwblock_nolock`
      if ino < blocks then ioLoop blocks firstCluster rest fat' (alen + size) else .error .blkno

/-- A file gets a size, through one of its inodes. -/
def setSize (v : Vol) (n : ℕ) (sin : Sin) (size : ℕ) : Vol :=
  { v with
    dinos := update v.dinos sin.ino { v.dinos sin.ino with size := size }
    nodes := v.nodes.set n { sin with dirty := true } }

/-- The transfer and the new size, at the end of `sfatfs_io_nolock`. -/
def transfer (v : Vol) (n : ℕ) (sin : Sin) (offset endpos : ℕ) : Except Stop (Vol × Option Err) := do
  let din := v.dinos sin.ino
  let (fat, alen, ret) ← ioLoop v.super.blocks din.firstCluster (ioBlocks offset endpos) v.fat 0
  let v := { v with fat := fat }
  if din.size < offset + alen then return (setSize v n sin (offset + alen), ret) else return (v, ret)

/-- `sfatfs_io_nolock` -/
def ioNolock (v : Vol) (n : ℕ) (sin : Sin) (offset len : ℕ) (write : Bool) : Except Stop (Vol × Option Err) :=
  let size := (v.dinos sin.ino).size
  let endpos := min (offset + len) maxFileSize
  if maxFileSize ≤ offset then .ok (v, some .inval)
  else if len = 0 then .ok (v, none)
  else if write then transfer v n sin offset endpos
  else if size ≤ offset then .ok (v, none)
  else transfer v n sin offset (min endpos size)

/-- The blocks that `sfatfs_truncfile` appends. -/
def growLoop (firstCluster : ℕ) : ℕ → ℕ → Fat → Fat × Option Err
  | 0, _, fat => (fat, none)
  | n + 1, nblks, fat =>
    match bmapLoad fat firstCluster nblks with
    | .error e => (fat, some e)
    | .ok (fat', _) => growLoop firstCluster n (nblks + 1) fat'

/-- The blocks that `sfatfs_truncfile` takes off. -/
def shrinkLoop (firstCluster : ℕ) : ℕ → Fat → Except Stop Fat
  | 0, fat => .ok fat
  | n + 1, fat =>
    if blkNentry ≤ firstCluster then .error .firstCluster
    else
      match bmapTruncate fat firstCluster with
      | none => .error .endless
      | some (fat', _) => shrinkLoop firstCluster n fat'

/-- `ROUNDUP_DIV(len, SFATFS_BLKSIZE)`, kept in 32 bits -/
def blocksOf (len : ℕ) : ℕ := (len + blkSize - 1) / blkSize % 2 ^ 32

/-- `sfatfs_truncfile` -/
def truncfile (v : Vol) (n : ℕ) (sin : Sin) (len : ℕ) : Except Stop (Vol × Option Err) :=
  let din := v.dinos sin.ino
  let tblks := blocksOf len
  let nblks := blocksOf din.size
  if din.size = len then .ok (v, none)
  else if nblks < tblks then
    match growLoop din.firstCluster (tblks - nblks) nblks v.fat with
    | (fat, some e) => .ok ({ v with fat := fat }, some e)
    | (fat, none) => .ok (setSize { v with fat := fat } n sin (len % 2 ^ 32), none)
  else do
    -- a file of a single block gets the size zero on the way, and its new size in the end
    let fat ← shrinkLoop din.firstCluster (nblks - tblks) v.fat
    return (setSize { v with fat := fat } n sin (len % 2 ^ 32), none)

/-- `sfatfs_tryseek` -/
def tryseek (v : Vol) (n : ℕ) (sin : Sin) (pos : ℕ) : Except Stop (Vol × Option Err) :=
  if maxFileSize ≤ pos then .ok (v, some .inval)
  else if (v.dinos sin.ino).size < pos then truncfile v n sin pos
  else .ok (v, none)

/-- `sfatfs_fsync` -/
def fsync (v : Vol) (n : ℕ) (sin : Sin) : Vol :=
  if sin.dirty then
    { v with
      nodes := v.nodes.set n { sin with dirty := false }
      disk := { v.disk with dinos := update v.disk.dinos sin.ino (v.dinos sin.ino) } }
  else v

/-- `sfatfs_sync`; no inode is on the list of the file system. -/
def sync (v : Vol) : Vol :=
  if v.superDirty then
    { v with
      superDirty := false
      disk := { v.disk with super := v.super, dinos := v.dinos, fat := v.fat } }
  else v

/-- What a process can do: the operations of the directory, the operations of the inode with the
number `n` in the table, and an unmount with the next mount. -/
inductive Op where
  | lookup (name : List UInt8)
  | create (name : List UInt8)
  | io (n offset len : ℕ) (write : Bool)
  | tryseek (n pos : ℕ)
  | truncate (n len : ℕ)
  | fsync (n : ℕ)
  | remount
deriving DecidableEq

/-- An operation of a file, through one of its inodes; the directory has none of them. -/
def onFile (v : Vol) (n : ℕ) (f : Sin → Except Stop (Vol × Option Err)) : Except Stop (Vol × Option Err) :=
  match v.nodes[n]? with
  | none => .ok (v, some .inval)
  | some sin => if (v.dinos sin.ino).isDir then .ok (v, some .isDir) else f sin

/-- One operation and the error it returns. -/
def Vol.exec (v : Vol) : Op → Except Stop (Vol × Option Err)
  | .lookup name => Sfatfs.lookup v name
  | .create name => Sfatfs.create v name
  | .io n offset len write => onFile v n fun sin => ioNolock v n sin offset len write
  | .tryseek n pos => onFile v n fun sin => Sfatfs.tryseek v n sin pos
  | .truncate n len => onFile v n fun sin => truncfile v n sin len
  | .fsync n =>
    match v.nodes[n]? with
    | none => .ok (v, some .inval)
    | some sin => .ok (Sfatfs.fsync v n sin, none)
  | .remount => do
      let v ← doMount (sync v).disk
      return (v, none)

/-- The volume after one operation. -/
def Vol.step (v : Vol) (op : Op) : Except Stop Vol := do
  let (v, _) ← v.exec op
  return v

/-! ### How an operation changes the table -/

variable {v v' : Vol} {fat fat' : Fat} {firstCluster : ℕ} {sin : Sin} {op : Op}

/-- The table stays as it is, or loses free entries. -/
def Takes (fat fat' : Fat) : Prop := fat' = fat ∨ freeEntries fat' < freeEntries fat ∧ fat' 0 ≠ fatFree

/-- The table stays as it is, or has another number of free entries. -/
def Shift (fat fat' : Fat) : Prop := fat' = fat ∨ freeEntries fat' ≠ freeEntries fat

lemma Takes.shift (h : Takes fat fat') : Shift fat fat' := h.imp_right fun hlt => hlt.1.ne

lemma Takes.reserved (h : Takes fat fat') (h0 : fat 0 ≠ fatFree) : fat' 0 ≠ fatFree := by
  obtain rfl | ⟨-, h'⟩ := h
  · exact h0
  · exact h'

lemma Takes.trans {fat'' : Fat} (h : Takes fat fat') (h' : Takes fat' fat'') : Takes fat fat'' := by
  obtain rfl | h := h
  · exact h'
  · obtain rfl | h' := h'
    · exact .inr h
    · exact .inr ⟨h'.1.trans h.1, h'.2⟩

lemma bmapLoad_takes {index p : ℕ} (h0 : fat 0 ≠ fatFree)
    (h : bmapLoad fat firstCluster index = .ok (fat', p)) : Takes fat fat' := by
  obtain hEq | ⟨hcount, h0'⟩ := bmapLoad_cases h0 h
  · exact .inl hEq
  · exact .inr ⟨Nat.lt_of_add_one_le hcount.le, h0'⟩

/-- A transfer takes blocks. -/
lemma ioLoop_takes (blocks firstCluster : ℕ) (l : List (ℕ × ℕ)) (h0 : fat 0 ≠ fatFree) (alen : ℕ) :
    Ensures (· = .blkno) (ioLoop blocks firstCluster l fat alen) fun r => Takes fat r.1 := by
  induction l generalizing fat alen with
  | nil => exact .inl rfl
  | cons p l ih =>
    obtain ⟨index, size⟩ := p
    rw [ioLoop]
    cases hload : bmapLoad fat firstCluster index with
    | error e => exact .inl rfl
    | ok r =>
      obtain ⟨fat', ino⟩ := r
      have htakes := bmapLoad_takes h0 hload
      dsimp only
      split_ifs
      · exact (ih (htakes.reserved h0) _).mono fun r hr => htakes.trans hr
      · rfl

/-- So does growing. -/
lemma growLoop_takes (firstCluster n nblks : ℕ) (h0 : fat 0 ≠ fatFree) :
    Takes fat (growLoop firstCluster n nblks fat).1 := by
  induction n generalizing fat nblks with
  | zero => exact .inl rfl
  | succ n ih =>
    rw [growLoop]
    cases hload : bmapLoad fat firstCluster nblks with
    | error e => exact .inl rfl
    | ok r =>
      have htakes := bmapLoad_takes h0 hload
      exact htakes.trans (ih _ (htakes.reserved h0))

variable {l : List ℕ}

/-- Shrinking frees blocks. -/
lemma shrinkLoop_frees (n : ℕ) (hb : Blocks fat firstCluster l) :
    ∃ fat', shrinkLoop firstCluster n fat = .ok fat' ∧ (fat' = fat ∨ freeEntries fat < freeEntries fat') := by
  induction n generalizing fat l with
  | zero => exact ⟨fat, rfl, .inl rfl⟩
  | succ n ih =>
    rw [shrinkLoop, if_neg hb.firstCluster_lt.not_ge]
    obtain ⟨-, htrunc⟩ | ⟨l0, i, j, rfl, htrunc⟩ := bmapTruncate_spec hb
    · rw [htrunc]
      exact ih hb
    · rw [htrunc]
      obtain ⟨fat', hrun, hor⟩ := ih hb.dropLast
      have hlt := Nat.lt_of_add_one_le hb.freeEntries_dropLast.ge
      refine ⟨fat', hrun, .inr ?_⟩
      grind

/-! ### What an operation leaves alone -/

/-- The device holds the superblock, the table and the entries. -/
structure Clean (v : Vol) : Prop where
  super : v.disk.super = v.super
  fat : v.disk.fat = v.fat
  entry : ∀ i < v.super.ndirentry, (v.disk.dinos i).entry = (v.dinos i).entry

/-- Nothing but the table, sizes and inodes has changed. -/
structure Frame (v v' : Vol) : Prop where
  super : v'.super = v.super
  superDirty : v'.superDirty = v.superDirty
  entry : ∀ i, (v'.dinos i).entry = (v.dinos i).entry
  nodes : ∀ sin ∈ v'.nodes, sin.ino < v.super.ndirentry
  device : v'.disk.blocks = v.disk.blocks
  clean : Clean v → v'.fat = v.fat → Clean v'

/-- What mounting relies on, and what keeps it so. -/
structure Inv (v : Vol) : Prop where
  good : v.super.unusedBlocks = BitVec.ofNat 32 (freeEntries v.fat)
  reserved : v.fat 0 ≠ fatFree
  attr : ∀ i < v.super.ndirentry, (v.dinos i).isDir || (v.dinos i).isFile
  blocks : ∀ i < v.super.ndirentry, (v.dinos i).isDir = false →
    ∃ l, Blocks v.fat (v.dinos i).firstCluster l
  nodes : ∀ sin ∈ v.nodes, sin.ino < v.super.ndirentry
  magic : v.super.magic = sfatfsMagic
  device : v.super.blocks ≤ v.disk.blocks
  clean : v.superDirty = false → Clean v

/-- An operation in memory. -/
lemma Frame.of_disk_eq (hsuper : v'.super = v.super) (hdirty : v'.superDirty = v.superDirty)
    (hentry : ∀ i, (v'.dinos i).entry = (v.dinos i).entry)
    (hnodes : ∀ sin ∈ v'.nodes, sin.ino < v.super.ndirentry) (hdisk : v'.disk = v.disk) : Frame v v' where
  super := hsuper
  superDirty := hdirty
  entry := hentry
  nodes := hnodes
  device := by rw [hdisk]
  clean h hfat :=
    { super := by rw [hdisk, hsuper, h.super]
      fat := by rw [hdisk, hfat, h.fat]
      entry := fun i hi => by
        rw [hsuper] at hi
        rw [hdisk, hentry, h.entry i hi] }

/-- The inodes after one of them has been marked. -/
lemma nodes_set {nodes : List Sin} {n k : ℕ} {dirty : Bool} (h : ∀ sin ∈ nodes, sin.ino < k) (hsin : sin ∈ nodes) :
    ∀ sin' ∈ nodes.set n { sin with dirty := dirty }, sin'.ino < k := by
  intro sin' hsin'
  obtain hmem | rfl := mem_or_eq_of_mem_set hsin'
  · exact h sin' hmem
  · exact h sin hsin

lemma Inv.frame_refl (h : Inv v) : Frame v v := .of_disk_eq rfl rfl (fun _ => rfl) h.nodes rfl

lemma Inv.frame_fat (h : Inv v) (fat : Fat) : Frame v { v with fat := fat } :=
  .of_disk_eq rfl rfl (fun _ => rfl) h.nodes rfl

/-- A file keeps its place when it gets a size. -/
lemma Inv.frame_setSize (h : Inv v) (fat : Fat) (n : ℕ) (hsin : sin ∈ v.nodes) (size : ℕ) :
    Frame v (setSize { v with fat := fat } n sin size) := by
  refine .of_disk_eq rfl rfl (fun i => ?_) (nodes_set h.nodes hsin) rfl
  obtain rfl | hi := eq_or_ne i sin.ino
  · simp [setSize, Din.entry]
  · simp [setSize, update_of_ne hi]

/-! ### One operation -/

/-- The assertions of other parts that may end a run: a name too long for a lookup, and a transfer to
a block behind the end of the volume. -/
def Stop.Aside (p : Stop) : Prop := p = .fnameLen ∨ p = .blkno

/-- What the operations but creating and mounting do. -/
def Moves (v v' : Vol) : Prop := Frame v v' ∧ Shift v.fat v'.fat

lemma Inv.moves_refl (h : Inv v) : Moves v v := ⟨h.frame_refl, .inl rfl⟩

variable {ino : ℕ}

lemma Inv.loadInode (h : Inv v) (hino : ino < v.super.ndirentry) :
    ∃ v', Sfatfs.loadInode v ino = .ok v' ∧ Frame v v' ∧ v'.fat = v.fat := by
  exact ⟨_, if_pos (h.attr ino hino), .of_disk_eq rfl rfl (fun _ => rfl)
    (forall_mem_append.mpr ⟨h.nodes, forall_mem_singleton.mpr hino⟩) rfl, rfl⟩

lemma direntSearch_lt {name : List UInt8} (h : direntSearch v name = some ino) : ino < v.super.ndirentry := by
  have hmem := mem_of_find?_eq_some h
  exact mem_range.mp (mem_reverse.mp hmem)

section

variable (h : Inv v)
include h

lemma lookup_moves (name : List UInt8) : Ensures Stop.Aside (Sfatfs.lookup v name) fun r => Moves v r.1 := by
  rw [Sfatfs.lookup]
  refine .ite (fun _ => .inl rfl) fun _ => ?_
  cases hsearch : direntSearch v name with
  | none => exact h.moves_refl
  | some ino =>
    obtain ⟨v', hload, hframe, hfat⟩ := h.loadInode (direntSearch_lt hsearch)
    dsimp only
    rw [hload]
    exact ⟨hframe, .inl hfat⟩

section

variable (n : ℕ)

section

variable (hsin : sin ∈ v.nodes)
include hsin

lemma transfer_moves (offset endpos : ℕ) :
    Ensures Stop.Aside (transfer v n sin offset endpos) fun r => Moves v r.1 := by
  have htakes := ioLoop_takes v.super.blocks (v.dinos sin.ino).firstCluster (ioBlocks offset endpos) h.reserved 0
  rw [transfer]
  cases hloop : ioLoop v.super.blocks (v.dinos sin.ino).firstCluster (ioBlocks offset endpos) v.fat 0 with
  | error p =>
    rw [hloop] at htakes
    exact .inr htakes
  | ok r =>
    obtain ⟨fat, alen, ret⟩ := r
    rw [hloop] at htakes
    have hshift : Shift v.fat fat := Takes.shift htakes
    exact .ite (fun _ => ⟨h.frame_setSize fat n hsin _, hshift⟩) fun _ => ⟨h.frame_fat fat, hshift⟩

lemma ioNolock_moves (offset len : ℕ) (write : Bool) :
    Ensures Stop.Aside (ioNolock v n sin offset len write) fun r => Moves v r.1 := by
  rw [ioNolock]
  exact .ite (fun _ => h.moves_refl) fun _ => .ite (fun _ => h.moves_refl) fun _ =>
    .ite (fun _ => transfer_moves h n hsin _ _) fun _ =>
      .ite (fun _ => h.moves_refl) fun _ => transfer_moves h n hsin _ _

lemma truncfile_moves (hfile : (v.dinos sin.ino).isDir = false) (len : ℕ) :
    Ensures Stop.Aside (truncfile v n sin len) fun r => Moves v r.1 := by
  rw [truncfile]
  refine .ite (fun _ => h.moves_refl) fun _ => .ite (fun _ => ?_) fun _ => ?_
  · have htakes := growLoop_takes (v.dinos sin.ino).firstCluster
      (blocksOf len - blocksOf (v.dinos sin.ino).size) (blocksOf (v.dinos sin.ino).size) h.reserved
    cases hgrow : growLoop (v.dinos sin.ino).firstCluster
        (blocksOf len - blocksOf (v.dinos sin.ino).size) (blocksOf (v.dinos sin.ino).size) v.fat with
    | mk fat ret =>
      rw [hgrow] at htakes
      cases ret with
      | some e => exact ⟨h.frame_fat fat, htakes.shift⟩
      | none => exact ⟨h.frame_setSize fat n hsin _, htakes.shift⟩
  · obtain ⟨l, hb⟩ := h.blocks sin.ino (h.nodes sin hsin) hfile
    obtain ⟨fat, hshrink, hfrees⟩ :=
      shrinkLoop_frees (blocksOf (v.dinos sin.ino).size - blocksOf len) hb
    rw [hshrink]
    exact ⟨h.frame_setSize fat n hsin _, hfrees.imp_right fun hlt => hlt.ne'⟩

lemma tryseek_moves (hfile : (v.dinos sin.ino).isDir = false) (pos : ℕ) :
    Ensures Stop.Aside (tryseek v n sin pos) fun r => Moves v r.1 := by
  rw [tryseek]
  exact .ite (fun _ => h.moves_refl) fun _ =>
    .ite (fun _ => truncfile_moves h n hsin hfile pos) fun _ => h.moves_refl

lemma fsync_moves : Moves v (fsync v n sin) := by
  rw [fsync]
  split_ifs
  · refine ⟨⟨rfl, rfl, fun _ => rfl, nodes_set h.nodes hsin, rfl, fun hclean _ => ?_⟩, .inl rfl⟩
    refine ⟨hclean.super, hclean.fat, fun i hi => ?_⟩
    obtain rfl | hEq := eq_or_ne i sin.ino
    · simp
    · simpa [update_of_ne hEq] using hclean.entry i hi
  · exact h.moves_refl

end

/-- An operation of a file is one of the file's own inode. -/
lemma onFile_moves {f : Sin → Except Stop (Vol × Option Err)}
    (hf : ∀ sin ∈ v.nodes, (v.dinos sin.ino).isDir = false → Ensures Stop.Aside (f sin) fun r => Moves v r.1) :
    Ensures Stop.Aside (onFile v n f) fun r => Moves v r.1 := by
  rw [onFile]
  cases hn : v.nodes[n]? with
  | none => exact h.moves_refl
  | some sin =>
    refine .ite (fun _ => h.moves_refl) fun hdir => hf sin (mem_of_getElem? hn) ?_
    simpa using hdir

end

/-- The operations that keep count of the blocks. -/
def Op.Counts : Op → Prop
  | .create _ => True
  | .remount => True
  | _ => False

/-- Every other operation leaves all but the table, sizes and inodes alone, and the table as it is or
with another number of free entries. -/
lemma exec_moves (hop : ¬op.Counts) : Ensures Stop.Aside (v.exec op) fun r => Moves v r.1 := by
  cases op with
  | create | remount => exact absurd trivial hop
  | lookup name => exact lookup_moves h name
  | io n offset len write =>
    exact onFile_moves h n fun sin hsin _ => ioNolock_moves h n hsin offset len write
  | tryseek n pos => exact onFile_moves h n fun sin hsin hfile => tryseek_moves h n hsin hfile pos
  | truncate n len => exact onFile_moves h n fun sin hsin hfile => truncfile_moves h n hsin hfile len
  | fsync n =>
    rw [Vol.exec]
    cases hn : v.nodes[n]? with
    | none => exact h.moves_refl
    | some sin => exact fsync_moves h n (mem_of_getElem? hn)

end

/-! ### The count -/

/-- The superblock has the number of free entries. -/
def Good (v : Vol) : Prop := v.super.unusedBlocks = BitVec.ofNat 32 (freeEntries v.fat)

/-- No block is taken or freed. -/
def SameBlocks (v v' : Vol) : Prop := ∀ i < blkNentry, (v'.fat i = fatFree ↔ v.fat i = fatFree)

/-- The operation keeps count, or it takes and frees no block. -/
def Safe (v : Vol) (op : Op) : Prop := op.Counts ∨ ∀ v', v.step op = .ok v' → SameBlocks v v'

lemma freeEntries_congr (h : ∀ i < blkNentry, (fat' i = fatFree ↔ fat i = fatFree)) :
    freeEntries fat' = freeEntries fat :=
  Finset.sum_congr rfl fun i hi => by simp only [h i (Finset.mem_range.mp hi)]

/-- The counts that 32 bits hold are told apart. -/
lemma ofNat_freeEntries_inj (h : BitVec.ofNat 32 (freeEntries fat') = BitVec.ofNat 32 (freeEntries fat)) :
    freeEntries fat' = freeEntries fat := by grind [freeEntries_le, blkNentry, BitVec.toNat_ofNat]

/-- Only the superblock, the table and the entries matter. -/
lemma Inv.congr (h : Inv v) (hsuper : v'.super = v.super) (hfat : v'.fat = v.fat)
    (hentry : ∀ i < v.super.ndirentry, (v'.dinos i).entry = (v.dinos i).entry)
    (hnodes : ∀ sin ∈ v'.nodes, sin.ino < v.super.ndirentry)
    (hdevice : v'.disk.blocks = v.disk.blocks) (hclean : v'.superDirty = false → Clean v') : Inv v' where
  good := by rw [hsuper, hfat, h.good]
  reserved := by rw [hfat]; exact h.reserved
  attr i hi := by
    rw [hsuper] at hi
    have hattr : (v'.dinos i).attr = (v.dinos i).attr := congrArg Prod.fst (hentry i hi)
    rw [Din.isDir, Din.isFile, hattr]
    exact h.attr i hi
  blocks i hi hdir := by
    rw [hsuper] at hi
    have hattr : (v'.dinos i).attr = (v.dinos i).attr := congrArg Prod.fst (hentry i hi)
    have hfirst : (v'.dinos i).firstCluster = (v.dinos i).firstCluster :=
      congrArg Prod.snd (hentry i hi)
    rw [Din.isDir, hattr] at hdir
    rw [hfat, hfirst]
    exact h.blocks i hi hdir
  nodes := by rw [hsuper]; exact hnodes
  magic := by rw [hsuper, h.magic]
  device := by rw [hsuper, hdevice]; exact h.device
  clean := hclean

/-- An operation that leaves the table alone. -/
lemma Inv.of_frame (h : Inv v) (hframe : Frame v v') (hfat : v'.fat = v.fat) : Inv v' :=
  h.congr hframe.super hfat (fun i _ => hframe.entry i) hframe.nodes hframe.device fun hdirty =>
    hframe.clean (h.clean (by rw [← hframe.superDirty, hdirty])) hfat

/-- Unmounting and mounting again. -/
lemma Inv.remount (h : Inv v) : ∃ v', doMount (sync v).disk = .ok v' ∧ Inv v' := by
  have hclean : Clean (sync v) := by
    rw [sync]
    split_ifs with hdirty
    · exact ⟨rfl, rfl, fun _ _ => rfl⟩
    · exact h.clean (by simpa using hdirty)
  obtain ⟨hsuper, hfat, hdinos, hdevice⟩ : (sync v).super = v.super ∧ (sync v).fat = v.fat ∧
      (sync v).dinos = v.dinos ∧ (sync v).disk.blocks = v.disk.blocks := by
    rw [sync]
    split_ifs <;> exact ⟨rfl, rfl, rfl, rfl⟩
  have hsuper' := hclean.super.trans hsuper
  have hfat' := hclean.fat.trans hfat
  have hdevice' : ¬(sync v).disk.blocks < (sync v).disk.super.blocks := by
    rw [hdevice, hsuper']
    exact h.device.not_gt
  have hmounted : Inv (mounted (sync v).disk) := by
    refine h.congr hsuper' hfat' (fun i _ => ?_) (fun _ hsin => absurd hsin not_mem_nil) hdevice
      fun _ => ⟨rfl, rfl, fun _ _ => rfl⟩
    rw [← hdinos]
    exact hclean.entry i (by rwa [hsuper])
  refine ⟨_, ?_, hmounted⟩
  rw [doMount, if_neg (by simp [hsuper', h.magic]), if_neg hdevice',
    if_neg (by rw [hsuper', hfat', h.good]; simp)]

variable {bno : ℕ}

/-- The table with a block for a new file. -/
lemma Blocks.take (hb : Blocks fat firstCluster l) (hfree : fat bno = fatFree) :
    Blocks (update fat bno fatEof) firstCluster l := by
  have hne : ∀ i ∈ l, i ≠ bno := fun i hi hEq => hb.used i hi (hEq ▸ hfree)
  refine { hb with
    chain := hb.chain.congr fun i hi => update_of_ne (hne i hi) ..
    used := fun i hi => ?_ }
  rw [update_of_ne (hne i hi)]
  exact hb.used i hi

lemma blocks_singleton (hlt : bno < blkNentry) : Blocks (update fat bno fatEof) bno [bno] where
  chain := ⟨rfl, (hlt.trans (by decide)).ne, update_self ..⟩
  nonempty := cons_ne_nil bno []
  nodup := nodup_singleton bno
  lt i hi := by rwa [mem_singleton.mp hi]
  used i hi := by
    rw [mem_singleton.mp hi, update_self]
    decide

/-- The first entry is not taken. -/
lemma reserved_take (h0 : fat 0 ≠ fatFree) (hfree : fat bno = fatFree) : update fat bno fatEof 0 ≠ fatFree := by
  have hne : 0 ≠ bno := fun hEq => h0 (hEq ▸ hfree)
  rwa [update_of_ne hne]

variable (h : Inv v)
include h

/-- A new file. -/
lemma Inv.created (name : List UInt8) (hlt : bno < blkNentry)
    (hfree : v.fat bno = fatFree) : Inv (created v name bno) := by
  have hold : ∀ i < v.super.ndirentry, (Sfatfs.created v name bno).dinos i = v.dinos i := fun i hi =>
    update_of_ne hi.ne ..
  have hnew : (Sfatfs.created v name bno).dinos v.super.ndirentry = ⟨name, 0x21, bno, 0⟩ :=
    update_self ..
  refine {
    good := ?_
    reserved := ?_
    attr := fun i hi => ?_
    blocks := fun i hi hdir => ?_
    nodes := fun sin hsin => Nat.lt_succ_of_lt (h.nodes sin hsin)
    magic := h.magic
    device := h.device
    clean := fun hdirty => absurd hdirty (by simp [Sfatfs.created]) }
  · have hcount := freeEntries_take hlt hfree
    change v.super.unusedBlocks - 1 = BitVec.ofNat 32 (freeEntries (update v.fat bno fatEof))
    rw [h.good, ← hcount, BitVec.ofNat_add]
    exact BitVec.add_sub_cancel ..
  · exact reserved_take h.reserved hfree
  · obtain hi | rfl := Nat.lt_succ_iff_lt_or_eq.mp hi
    · rw [hold i hi]
      exact h.attr i hi
    · rw [hnew, Din.isDir, Din.isFile]
      dsimp only
      decide
  · obtain hi | rfl := Nat.lt_succ_iff_lt_or_eq.mp hi
    · rw [hold i hi] at hdir ⊢
      obtain ⟨l, hb⟩ := h.blocks i hi hdir
      exact ⟨l, hb.take hfree⟩
    · rw [hnew]
      exact ⟨[bno], blocks_singleton hlt⟩

/-- Creating a file never fails in another way than by returning an error. -/
lemma Inv.create (name : List UInt8) : ∃ r, Sfatfs.create v name = .ok r ∧ Inv r.1 := by
  rw [Sfatfs.create]
  split_ifs
  · exact ⟨_, rfl, h⟩
  · exact ⟨_, rfl, h⟩
  · exact ⟨_, rfl, h⟩
  · cases hfind : bmapFindfree v.fat with
    | none => exact ⟨_, rfl, h⟩
    | some bno =>
      obtain ⟨hlt, hfree⟩ := bmapFindfree_some hfind
      have hcreated := h.created name hlt hfree
      obtain ⟨v', hload, hframe, hfat⟩ := hcreated.loadInode (Nat.lt_succ_self v.super.ndirentry)
      refine ⟨(v', none), ?_, hcreated.of_frame hframe hfat⟩
      dsimp only
      rw [hload]
      rfl

/-! ### Runs -/

lemma Inv.counts (hop : op.Counts) : ∃ v', v.step op = .ok v' ∧ Inv v' := by
  cases op with
  | create name =>
    obtain ⟨r, hr, hinv⟩ := h.create name
    refine ⟨r.1, ?_, hinv⟩
    rw [Vol.step, Vol.exec, hr]
    rfl
  | remount =>
    obtain ⟨v', hv', hinv⟩ := h.remount
    refine ⟨v', ?_, hinv⟩
    rw [Vol.step, Vol.exec, hv']
    rfl
  | _ => exact absurd hop id

/-- The other operations, as steps. -/
lemma step_moves (hop : ¬op.Counts) : Ensures Stop.Aside (v.step op) (Moves v) :=
  (exec_moves h hop).bind fun _ hr => hr

/-- An operation that takes and frees no block keeps what mounting relies on. -/
lemma step_inv (hsafe : Safe v op) : Ensures Stop.Aside (v.step op) Inv := by
  by_cases hop : op.Counts
  · exact .of_ok (h.counts hop)
  · refine (step_moves h hop).mono_eq fun v' hstep ⟨hframe, hshift⟩ => h.of_frame hframe ?_
    have hsame := hsafe.resolve_left hop v' hstep
    exact hshift.resolve_right fun hne => hne (freeEntries_congr hsame)

/-- An operation that takes or frees a block does not count it. -/
lemma step_bad (hsafe : ¬Safe v op) : Ensures (fun p => ¬p.Aside) (v.step op) fun v' => ¬Good v' := by
  obtain ⟨hop, hne⟩ := not_or.mp hsafe
  push Not at hne
  obtain ⟨v', hstep, hsame⟩ := hne
  have hmoves := step_moves h hop
  rw [hstep] at hmoves ⊢
  obtain ⟨hframe, hshift⟩ := hmoves
  intro hgood
  rw [Good, hframe.super, h.good] at hgood
  obtain hfat | hcount := hshift
  · exact hsame fun i _ => by rw [hfat]
  · exact hcount (ofNat_freeEntries_inj hgood).symm

/-- The count is right throughout a run exactly when every operation that takes or frees a block
counts it. -/
lemma correctUpTo_iff (ops : List Op) :
    CorrectUpTo Vol.step Good Stop.Aside v ops ↔ AllSafe Vol.step Safe v ops :=
  correctUpTo_iff_allSafe Inv (fun _ h => h.good) (fun _ _ => step_inv) (fun _ _ => step_bad) h ops

end UcoreKernel.Sfatfs
