import UcoreKernel.Lib.ByteBlock
import UcoreKernel.Lib.Except

/-!
`kern-ucore/fs/sfs/sfs_fs.c`, `sfs_inode.c` and `sfs_io.c`: writing a mounted volume to its device.

`sfs_sync` calls `sfs_fsync` for every inode in memory and then writes the superblock and the free
map. The device may fail at any of its operations. What `sfs_fsync` returns is dropped, and it leaves
out the inodes without a link.
-/

namespace UcoreKernel.SfsSync

open ByteBlock Function List

/-- `SFS_BLKSIZE`. -/
def blkSize : ℕ := 4096

/-- `SFS_BLKN_SUPER`. -/
def blknSuper : ℕ := 0

/-- `SFS_BLKN_FREEMAP`. -/
def blknFreemap : ℕ := 2

/-- The fields of `struct sfs_inode` that are read here; `din` are the bytes of the
`struct sfs_disk_inode`, and `removed` is the flag `SFS_removed`. -/
structure Sin where
  ino : ℕ
  din : List UInt8
  dirty : Bool
  removed : Bool
  deriving DecidableEq, Repr

/-- `sin->din->nlinks`. -/
def Sin.nlinks (sin : Sin) : ℕ := leNat ((sin.din.drop 6).take 2)

/-- A mounted volume and its device: `super` are the bytes of the superblock, `freemap` the blocks of
the free map in memory, `disk` the blocks on the device, and `io` counts the operations of the
device. -/
structure Sfs where
  super : List UInt8
  blocks : ℕ
  superDirty : Bool
  freemap : List Block
  sins : List Sin
  disk : ℕ → Block
  io : ℕ

/-- The assertions of `sfs_io.c`. -/
inductive Panic where
  | block
  | bufRange
  deriving DecidableEq, Repr

/-- The error codes: those of the device, and `-E_NOENT`. -/
inductive Errno (ε : Type) where
  | dev (e : ε)
  | noent
  deriving DecidableEq, Repr

variable {ε : Type} (err : ℕ → Option ε)

/-- `dop_io`: the operation with number `k` fails with `err k`. A block is written if it is given. -/
def dopIo (fs : Sfs) (blkno : ℕ) (buf : Option Block) : Option (Errno ε) × Sfs :=
  match err fs.io, buf with
  | some e, _ => (some (.dev e), { fs with io := fs.io + 1 })
  | none, none => (none, { fs with io := fs.io + 1 })
  | none, some b => (none, { fs with io := fs.io + 1, disk := update fs.disk blkno b })

/-- `sfs_rwblock_nolock`. -/
def rwblockNolock (fs : Sfs) (blkno : ℕ) (buf : Option Block) (check : Bool) :
    Except Panic (Option (Errno ε) × Sfs) :=
  if (blkno ≠ 0 ∨ check = false) ∧ blkno < fs.blocks then .ok (dopIo err fs blkno buf)
  else .error .block

/-- `sfs_wbuf`, at offset 0: the block is read, and written with the new bytes. -/
def wbuf (fs : Sfs) (bytes : List UInt8) (blkno : ℕ) : Except Panic (Option (Errno ε) × Sfs) :=
  if bytes.length ≤ blkSize then do
    match ← rwblockNolock err fs blkno none true with
    | (some e, fs) => return (some e, fs)
    | (none, fs) => rwblockNolock err fs blkno (some (write (fs.disk blkno) 0 bytes)) true
  else .error .bufRange

/-- `sfs_wblock`. -/
def wblock : List Block → Sfs → ℕ → Except Panic (Option (Errno ε) × Sfs)
  | [], fs, _ => .ok (none, fs)
  | b :: bufs, fs, blkno => do
      match ← rwblockNolock err fs blkno (some b) true with
      | (some e, fs) => return (some e, fs)
      | (none, fs) => wblock bufs fs (blkno + 1)

/-- `sfs_sync_super`. -/
def syncSuper (fs : Sfs) : Except Panic (Option (Errno ε) × Sfs) :=
  rwblockNolock err fs blknSuper (some (write zero 0 fs.super)) false

/-- `sfs_sync_freemap`. -/
def syncFreemap (fs : Sfs) : Except Panic (Option (Errno ε) × Sfs) :=
  wblock err fs.freemap fs blknFreemap

/-- `sfs_fsync`. -/
def sfsFsync (fs : Sfs) (sin : Sin) : Except Panic (Option (Errno ε) × Sin × Sfs) :=
  if sin.nlinks = 0 ∨ sin.dirty = false then .ok (none, sin, fs)
  else if sin.removed then .ok (some .noent, sin, fs)
  else do
    match ← wbuf err fs sin.din sin.ino with
    | (some e, fs) => return (some e, { sin with dirty := true }, fs)
    | (none, fs) => return (none, { sin with dirty := false }, fs)

/-- The loop of `sfs_sync` over the inodes in memory. -/
def syncInodes : List Sin → Sfs → Except Panic (List Sin × Sfs)
  | [], fs => .ok ([], fs)
  | sin :: sins, fs => do
      let (_, sin, fs) ← sfsFsync err fs sin
      let (sins, fs) ← syncInodes sins fs
      return (sin :: sins, fs)

/-- `sfs_sync`; `none` stands for 0. -/
def sfsSync (fs : Sfs) : Except Panic (Option (Errno ε) × Sfs) := do
  let (sins, fs) ← syncInodes err fs.sins fs
  let fs := { fs with sins := sins }
  if fs.superDirty then
    match ← syncSuper err { fs with superDirty := false } with
    | (some e, fs) => return (some e, { fs with superDirty := true })
    | (none, fs) =>
      match ← syncFreemap err fs with
      | (some e, fs) => return (some e, { fs with superDirty := true })
      | (none, fs) => return (none, fs)
  else return (none, fs)

/-! ### What is on the device -/

/-- The bytes of the inode are in its block. -/
def Sfs.OnDisk (fs : Sfs) (sin : Sin) : Prop := read (fs.disk sin.ino) 0 sin.din.length = sin.din

/-- The superblock and the free map are in their blocks. -/
def Sfs.MapsOnDisk (fs : Sfs) : Prop :=
  read (fs.disk blknSuper) 0 fs.super.length = fs.super ∧
    ∀ i b, fs.freemap[i]? = some b → fs.disk (blknFreemap + i) = b

/-- The volume is laid out as `sfs_do_mount` finds it: the inodes in memory have blocks of their own,
apart from the superblock and the free map. -/
structure Sfs.Ok (fs : Sfs) : Prop where
  nodup : (fs.sins.map Sin.ino).Nodup
  ino : ∀ sin ∈ fs.sins, sin.ino ≠ blknSuper ∧ sin.ino < fs.blocks ∧
    ¬(blknFreemap ≤ sin.ino ∧ sin.ino < blknFreemap + fs.freemap.length)
  fits : ∀ sin ∈ fs.sins, sin.din.length ≤ blkSize
  freemap : blknFreemap + fs.freemap.length ≤ fs.blocks
  clean : fs.superDirty = false → fs.MapsOnDisk

variable {err} {fs : Sfs}

/-- An inode is written, or its block stays as it is. -/
lemma wbuf_spec {sin : Sin} (hino : sin.ino ≠ 0) (hlt : sin.ino < fs.blocks)
    (hfits : sin.din.length ≤ blkSize) :
    ∃ ret disk io, wbuf err fs sin.din sin.ino = .ok (ret, { fs with disk := disk, io := io }) ∧
      fs.io ≤ io ∧ io ≤ fs.io + 2 ∧
      ((ret = none ∧ disk = update fs.disk sin.ino (write (fs.disk sin.ino) 0 sin.din)) ∨
        (ret ≠ none ∧ disk = fs.disk ∧ ∃ k, fs.io ≤ k ∧ k < fs.io + 2 ∧ err k ≠ none)) := by
  rw [wbuf, if_pos hfits]
  cases hread : err fs.io with
  | some e =>
    simp only [rwblockNolock, dopIo, hread, hino, hlt, ne_eq, not_false_eq_true, true_or, true_and, if_true, ok_bind]
    exact ⟨_, fs.disk, _, rfl, by omega, by omega, .inr ⟨nofun, rfl, fs.io, le_rfl, by omega, by simp [hread]⟩⟩
  | none =>
    simp only [rwblockNolock, dopIo, hread, hino, hlt, ne_eq, not_false_eq_true, true_or, true_and, if_true, ok_bind]
    cases hwrite : err (fs.io + 1) with
    | some e =>
      exact ⟨_, fs.disk, _, rfl, by omega, le_rfl, .inr ⟨nofun, rfl, fs.io + 1, by omega, by omega, by simp [hwrite]⟩⟩
    | none => exact ⟨_, _, _, rfl, by omega, le_rfl, .inl ⟨rfl, rfl⟩⟩

variable (err) in
/-- Why `sfs_fsync` leaves a marked inode out: it has no link, or it is removed, or one of the next `n`
operations of the device fails. -/
def LeftOut (fs : Sfs) (n : ℕ) (sin : Sin) : Prop :=
  sin.nlinks = 0 ∨ sin.removed = true ∨ ∃ k, fs.io ≤ k ∧ k < fs.io + n ∧ err k ≠ none

/-- One inode: it is written, or neither it nor a block has changed. -/
lemma sfsFsync_spec {sin : Sin} (hino : sin.ino ≠ 0) (hlt : sin.ino < fs.blocks)
    (hfits : sin.din.length ≤ blkSize) :
    ∃ ret sin' disk io, sfsFsync err fs sin = .ok (ret, sin', { fs with disk := disk, io := io }) ∧
      fs.io ≤ io ∧ io ≤ fs.io + 2 ∧ (∀ b, b ≠ sin.ino → disk b = fs.disk b) ∧
      ((sin' = { sin with dirty := false } ∧ read (disk sin.ino) 0 sin.din.length = sin.din) ∨
        (sin' = sin ∧ disk = fs.disk ∧ (sin.dirty = true → LeftOut err fs 2 sin))) := by
  rw [sfsFsync]
  split_ifs with hskip hremoved
  · refine ⟨_, sin, fs.disk, fs.io, rfl, le_rfl, by omega, fun _ _ => rfl, .inr ⟨rfl, rfl, fun hdirty => ?_⟩⟩
    exact .inl (hskip.resolve_right (by simp [hdirty]))
  · exact ⟨_, sin, fs.disk, fs.io, rfl, le_rfl, by omega, fun _ _ => rfl,
      .inr ⟨rfl, rfl, fun _ => .inr (.inl hremoved)⟩⟩
  · have hdirty : { sin with dirty := true } = sin := by
      rw [← show sin.dirty = true by simpa using (not_or.mp hskip).2]
    obtain ⟨ret, disk, io, hrun, hlow, hhigh, ⟨rfl, rfl⟩ | ⟨hret, rfl, hk⟩⟩ :=
      @wbuf_spec ε err fs sin hino hlt hfits
    · rw [hrun, ok_bind]
      refine ⟨_, _, _, _, rfl, hlow, hhigh, fun b hb => update_of_ne hb _ _, .inl ⟨rfl, ?_⟩⟩
      rw [update_self, read_write_self]
    · obtain ⟨e, rfl⟩ := Option.ne_none_iff_exists'.mp hret
      rw [hrun, ok_bind]
      exact ⟨_, _, _, _, rfl, hlow, hhigh, fun _ _ => rfl, .inr ⟨hdirty, rfl, fun _ => .inr (.inr hk)⟩⟩

/-- The loop over the inodes: each is written and its mark is off, or neither it nor its block has
changed. -/
lemma syncInodes_spec (sins : List Sin) (hnodup : (sins.map Sin.ino).Nodup)
    (hino : ∀ sin ∈ sins, sin.ino ≠ 0 ∧ sin.ino < fs.blocks) (hfits : ∀ sin ∈ sins, sin.din.length ≤ blkSize) :
    ∃ sins' disk io, syncInodes err sins fs = .ok (sins', { fs with disk := disk, io := io }) ∧
      sins'.map Sin.ino = sins.map Sin.ino ∧ (∀ b ∉ sins.map Sin.ino, disk b = fs.disk b) ∧
      ∀ sin ∈ sins, ({ sin with dirty := false } ∈ sins' ∧ read (disk sin.ino) 0 sin.din.length = sin.din) ∨
        (sin ∈ sins' ∧ disk sin.ino = fs.disk sin.ino ∧
          (sin.dirty = true → LeftOut err fs (2 * sins.length) sin)) := by
  induction sins generalizing fs with
  | nil => exact ⟨[], fs.disk, fs.io, rfl, rfl, fun _ _ => rfl, nofun⟩
  | cons sin sins ih =>
    obtain ⟨hnot, hnodup⟩ := nodup_cons.mp hnodup
    obtain ⟨⟨hne, hlt⟩, hino⟩ := forall_mem_cons.mp hino
    obtain ⟨hfit, hfits⟩ := forall_mem_cons.mp hfits
    obtain ⟨ret, sin', disk1, io1, hfirst, hlow, hhigh, hframe1, hcase⟩ :=
      @sfsFsync_spec ε err fs sin hne hlt hfit
    obtain ⟨sins', disk, io, hrest, hmap, hframe, hall⟩ :=
      @ih { fs with disk := disk1, io := io1 } hnodup hino hfits
    have hsin' : sin'.ino = sin.ino := by obtain ⟨rfl, -⟩ | ⟨rfl, -⟩ := hcase <;> rfl
    have hlater : disk sin.ino = disk1 sin.ino := hframe sin.ino hnot
    refine ⟨sin' :: sins', disk, io, by rw [syncInodes, hfirst, ok_bind]; dsimp only; rw [hrest]; rfl,
      by rw [map_cons, map_cons, hsin', hmap], fun b hb => ?_,
      forall_mem_cons.mpr ⟨?_, fun t ht => ?_⟩⟩
    · rw [map_cons, mem_cons, not_or] at hb
      exact (hframe b hb.2).trans (hframe1 b hb.1)
    · rw [hlater, length_cons]
      obtain ⟨rfl, hread⟩ | ⟨rfl, rfl, hleft⟩ := hcase
      · exact .inl ⟨.head _, hread⟩
      · refine .inr ⟨.head _, rfl, fun hdirty => (hleft hdirty).imp_right (Or.imp_right ?_)⟩
        rintro ⟨k, hk, hk', hfail⟩
        exact ⟨k, hk, by omega, hfail⟩
    · have htne : t.ino ≠ sin.ino := fun h => hnot (h ▸ mem_map_of_mem ht)
      obtain ⟨hmem, hread⟩ | ⟨hmem, hsame, hleft⟩ := hall t ht
      · exact .inl ⟨.tail _ hmem, hread⟩
      · refine .inr ⟨.tail _ hmem, hsame.trans (hframe1 _ htne), fun hdirty =>
          (hleft hdirty).imp_right (Or.imp_right ?_)⟩
        rintro ⟨k, hk, hk', hfail⟩
        dsimp only at hk hk'
        exact ⟨k, by omega, by rw [length_cons]; omega, hfail⟩

/-- The blocks of the free map, if none of the operations fails. -/
lemma wblock_spec (bufs : List Block) (blkno : ℕ) (hne : blkno ≠ 0) (hlt : blkno + bufs.length ≤ fs.blocks) :
    ∃ ret disk io, wblock err bufs fs blkno = .ok (ret, { fs with disk := disk, io := io }) ∧
      (∀ b, b < blkno ∨ blkno + bufs.length ≤ b → disk b = fs.disk b) ∧
      (ret = none → ∀ i b, bufs[i]? = some b → disk (blkno + i) = b) := by
  induction bufs generalizing fs blkno with
  | nil => exact ⟨none, fs.disk, fs.io, rfl, fun _ _ => rfl, nofun⟩
  | cons buf bufs ih =>
    rw [length_cons] at hlt
    simp only [wblock, rwblockNolock, dopIo, hne, show blkno < fs.blocks by omega, ne_eq, not_false_eq_true,
      true_or, true_and, if_true, ok_bind]
    cases herr : err fs.io with
    | some e => exact ⟨_, fs.disk, _, rfl, fun _ _ => rfl, nofun⟩
    | none =>
      obtain ⟨ret, disk, io, hrun, hframe, hall⟩ :=
        @ih { fs with io := fs.io + 1, disk := update fs.disk blkno buf } (blkno + 1) (by omega)
          (by simpa using (by omega))
      refine ⟨ret, disk, io, hrun, fun b hb => ?_, fun hret i b hi => ?_⟩
      · rw [length_cons] at hb
        rw [hframe b (by omega)]
        exact update_of_ne (by omega) _ _
      · cases i with
        | zero =>
          rw [add_zero, hframe blkno (.inl (by omega))]
          simpa using hi
        | succ i =>
          rw [show blkno + (i + 1) = blkno + 1 + i by omega]
          exact hall hret i b (by simpa using hi)

/-- `sfs_sync`, when its loop has come to `fs`. -/
lemma sfsSync_of_loop {fs₀ : Sfs} {sins : List Sin} (hloop : syncInodes err fs₀.sins fs₀ = .ok (sins, fs))
    (hfree : blknFreemap + fs.freemap.length ≤ fs.blocks) (hclean : fs.superDirty = false → fs.MapsOnDisk) :
    ∃ ret fs', sfsSync err fs₀ = .ok (ret, fs') ∧ fs'.sins = sins ∧ (ret = none → fs'.MapsOnDisk) ∧
      ∀ b, b ≠ blknSuper → ¬(blknFreemap ≤ b ∧ b < blknFreemap + fs.freemap.length) →
        fs'.disk b = fs.disk b := by
  rw [sfsSync, hloop, ok_bind]
  dsimp only
  split_ifs with hdirty
  · have hblocks : 0 < fs.blocks := by
      rw [blknFreemap] at hfree
      omega
    simp only [syncSuper, rwblockNolock, dopIo, hblocks, blknSuper, or_true, true_and, if_true, ok_bind]
    cases herr : err fs.io with
    | some e => exact ⟨_, _, rfl, rfl, nofun, fun _ _ _ => rfl⟩
    | none =>
      obtain ⟨ret, disk, io, hrun, hframe, hall⟩ := @wblock_spec ε err
        { fs with
          superDirty := false, sins := sins, io := fs.io + 1, disk := update fs.disk 0 (write zero 0 fs.super) }
        fs.freemap blknFreemap (by decide) hfree
      dsimp only [syncFreemap]
      rw [hrun, ok_bind]
      have hkeep : ∀ b, b ≠ 0 → ¬(blknFreemap ≤ b ∧ b < blknFreemap + fs.freemap.length) →
          disk b = fs.disk b := by
        intro b hb hout
        rw [hframe b (by omega)]
        exact update_of_ne hb _ _
      cases ret with
      | some e => exact ⟨_, _, rfl, rfl, nofun, hkeep⟩
      | none =>
        have hsuper : disk 0 = write zero 0 fs.super := by
          rw [hframe 0 (.inl (by decide))]
          exact update_self 0 _ fs.disk
        refine ⟨_, _, rfl, rfl, fun _ => ⟨?_, hall rfl⟩, hkeep⟩
        show read (disk 0) 0 fs.super.length = fs.super
        rw [hsuper, read_write_self]
  · exact ⟨_, _, rfl, rfl, fun _ => hclean (by simpa using hdirty), fun _ _ _ => rfl⟩

/-- A volume with one inode in memory, which has a link and is marked; its block is not written yet. -/
def oneInode : Sfs :=
  ⟨[], 4, false, [], [⟨3, [1, 0, 0, 0, 1, 0, 1, 0], true, false⟩], fun _ => zero, 0⟩

lemma oneInode_ok : oneInode.Ok := ⟨by decide, by decide, by decide, by decide, fun _ => ⟨rfl, nofun⟩⟩

end UcoreKernel.SfsSync
