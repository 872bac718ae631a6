import UcoreKernel.Fs.Sfs.EmptyVolume

/-!
The dirty flag of the inodes in memory: `sfs_fsync` and `sfs_reclaim` write an inode to its block only if
the flag is set, so it has to be set whenever the two differ.

`sfs_bmap_load_nolock` counts a new block in `din->blocks`, and it leaves the flag to its callers. A
pointer in the inode itself sets the flag. One in the indirect block does not, and then only a new size
does, which a growth that runs out of space never gets to.
-/

namespace UcoreKernel.Sfs

open ByteBlock PointerTree Guarded Function

variable {fs fs' : Fs} {sin : Sin}

/-! ### Growing within the indirect block -/

/-- The blocks after the direct ones have their pointers in the indirect block. -/
lemma bmapGet_indirect (fs : Fs) (sin : Sin) (i : Fin nentry) (create : Bool) :
    bmapGet fs sin (ndirect + i) create = bmapGetIndirect fs sin i create := by grind [bmapGet]

/-- An empty entry of an indirect block that is there gets a new block. -/
lemma bmapGetIndirect_alloc (hheld : Held fs sin.din) (hind : sin.din.indirect ≠ 0) {i : Fin nentry}
    (hnone : ptrs fs sin.din (.ind i) = 0) : bmapGetIndirect fs sin i true = (do
      match ← bmapAllocSub fs sin.din.indirect i with
      | (fs, none) => return (fs, sin, none)
      | (fs, some ino) => bmapOut fs sin ino) := by
  obtain ⟨hread, hword⟩ := rbuf_index (c := .ind i) hheld rfl hind
  have hread : fs.rbuf sin.din.indirect 4 (4 * i) = .ok (read (fs.disk sin.din.indirect) (4 * i) 4) := hread
  have hword : leNat (read (fs.disk sin.din.indirect) (4 * i) 4) = ptrs fs sin.din (.ind i) := hword
  rw [bmapGetIndirect, bmapGetSub, if_neg (not_le.mpr i.isLt), if_pos hind, hread, ok_bind]
  rw [hword, if_neg (by simp [hnone])]
  obtain p | ⟨fs', _ | b⟩ := bmapAllocSub fs sin.din.indirect i
  · rfl
  · rfl
  · simp [Sin.setIndirect]

/-- The next block is made below the indirect block: the inode counts it, and that is all. -/
lemma bmapLoad_indirect (hok : FsOk fs) (hheld : Held fs sin.din) (hind : sin.din.indirect ≠ 0)
    (i : Fin nentry) (hi : sin.din.blocks = ndirect + i) (hnone : ptrs fs sin.din (.ind i) = 0) :
    (fs.unusedBlocks = 0 ∧ bmapLoad fs sin sin.din.blocks = .ok (fs, sin, none)) ∨
      ∃ fs' b, bmapLoad fs sin sin.din.blocks = .ok (fs',
          { sin with din := { sin.din with blocks := sin.din.blocks + 1 } }, some b) ∧
        Extends fs sin.din fs' sin.din ∧ ptrs fs' sin.din = update (ptrs fs sin.din) (.ind i) b ∧
        fs.unusedBlocks = fs'.unusedBlocks + 1 := by
  have hget : bmapGet fs sin sin.din.blocks true = bmapGetIndirect fs sin i true := by
    rw [hi, bmapGet_indirect]
  rw [bmapLoad, if_neg (lt_irrefl _)]
  simp only [decide_true]
  rw [hget, bmapGetIndirect_alloc hheld hind hnone]
  rcases bmapAllocSub_spec (q := .indirect) hok hheld rfl hind hnone with
    ⟨hfull, halloc⟩ | ⟨fs', b, halloc, hb, hext, hptrs, hunused⟩
  · have halloc : bmapAllocSub fs sin.din.indirect i = .ok (fs, none) := halloc
    rw [halloc]
    exact .inl ⟨hfull, rfl⟩
  · have halloc : bmapAllocSub fs sin.din.indirect i = .ok (fs', some b) := halloc
    have hptr : ptrs fs' sin.din (.ind i) = b := by rw [hptrs, update_self]
    have hused : fs'.Used b := hptr ▸ hext.held.used (.ind i) (by rw [hptr]; exact hb)
    grind [ok_bind, bmapOut, Fs.assertInuse_of_used, pure_eq_ok]

/-- The loop takes the blocks that are left, and it marks nothing. -/
lemma growLoop_unmarked (left : ℕ) (hok : FsOk fs) (hheld : Held fs sin.din) (hind : sin.din.indirect ≠ 0)
    (hlow : ndirect ≤ sin.din.blocks) (hhigh : sin.din.blocks + left ≤ ndirect + nentry)
    (hnone : ∀ i : Fin nentry, sin.din.blocks ≤ ndirect + i → ndirect + i < sin.din.blocks + left →
      ptrs fs sin.din (.ind i) = 0) (hfull : fs.unusedBlocks < left) :
    ∃ fs', growLoop left fs sin sin.din.blocks = .ok (fs',
      { sin with din := { sin.din with blocks := sin.din.blocks + fs.unusedBlocks } }, false) := by
  induction left generalizing fs sin with
  | zero => exact absurd hfull (Nat.not_lt_zero _)
  | succ left ih =>
    have hlt : sin.din.blocks - ndirect < nentry := by omega
    have hi : sin.din.blocks = ndirect + (⟨sin.din.blocks - ndirect, hlt⟩ : Fin nentry) := by
      grind
    rw [growLoop]
    rcases bmapLoad_indirect hok hheld hind _ hi (hnone _ (by omega) (by omega)) with
      ⟨hzero, hload⟩ | ⟨fs1, b, hload, hext, hptrs, hunused⟩
    · rw [hload, hzero]
      exact ⟨fs, rfl⟩
    · rw [hload, ok_bind]
      set sin1 : Sin := { sin with din := { sin.din with blocks := sin.din.blocks + 1 } }
      have hptrs1 : ptrs fs1 sin1.din = ptrs fs1 sin.din := ptrs_congr rfl rfl rfl
      have hheld1 : Held fs1 sin1.din := by
        rw [Held, hptrs1]
        exact hext.held
      have hblocks1 : sin1.din.blocks = sin.din.blocks + 1 := rfl
      obtain ⟨fs2, hloop⟩ := @ih fs1 sin1 hext.ok hheld1 hind (by omega) (by omega) (fun j hj hj' => by
          rw [hptrs1, hptrs, update_of_ne]
          · exact hnone j (by omega) (by omega)
          · grind) (by omega)
      grind

/-- `sfs_truncfile` to a length for which there are too few blocks. -/
lemma sfsTruncfile_unmarked (len : ℕ) (h : FileOk fs sin) (hlen : len ≤ maxFileSize)
    (hne : sin.din.size ≠ len) (hind : sin.din.indirect ≠ 0) (hlow : ndirect ≤ sin.din.blocks)
    (hhigh : ceilBlocks len ≤ ndirect + nentry)
    (hnone : ∀ i : Fin nentry, sin.din.blocks ≤ ndirect + i → ndirect + i < ceilBlocks len →
      ptrs fs sin.din (.ind i) = 0) (hfull : sin.din.blocks + fs.unusedBlocks < ceilBlocks len) :
    ∃ fs', sfsTruncfile fs sin len = .ok (fs',
      { sin with din := { sin.din with blocks := sin.din.blocks + fs.unusedBlocks } }, some .noMem) := by
  obtain ⟨fs', hloop⟩ := growLoop_unmarked (ceilBlocks len - sin.din.blocks) h.ok h.held hind hlow (by omega)
    (fun i hi hi' => hnone i hi (by omega)) (by omega)
  refine ⟨fs', ?_⟩
  rw [sfsTruncfile, if_neg (by omega), if_neg h.type]
  dsimp only
  rw [Int.toNat_natCast, show (len + blkSize - 1) / blkSize = ceilBlocks len from rfl, if_neg hne,
    if_pos (by omega), hloop]
  rfl

/-! ### What is not marked is not written -/

namespace Vol

variable {v : Vol} {n : ℕ} {op : FileOp} {w : Width} {node : Node} {f : FileState} {r : IoResult}

section

variable (h : v.Inv) (hcache : v.cache n = some node) (htype : node.sin.din.type ≠ .dir)
include h hcache htype

/-- What an operation on a file in memory did to it. -/
lemma Inv.resized
    (hexec : FileState.exec w ⟨v.fs, node.sin⟩ op = .ok (f, r)) : Resized v.fs node.sin f.fs f.sin := by
  have hn := h.sound.mem hcache
  have hshaped := h.sound.shaped n hn
  have hfileOk := h.sound.fileOk hn (by rw [din_of_cache hcache]; exact htype)
  rw [sin_of_cache hcache] at hfileOk
  rw [din_of_cache hcache] at hshaped
  have hspec := FileState.exec_spec w (s := ⟨v.fs, node.sin⟩) hfileOk hshaped.fits.size op
  rw [hexec] at hspec
  exact hspec.2.1

variable (hlinks : node.sin.din.nlinks ≠ 0) (hdisk : node.sin.din = .ofBlock (v.fs.disk n))
include hlinks hdisk

/-- An operation that changes a clean inode without a mark: the inode in memory has links, it is not the one
on disk any more, and it is not dirty. -/
lemma Inv.unmarked (hexec : FileState.exec w ⟨v.fs, node.sin⟩ op = .ok (f, r)) (hne : f.sin.din ≠ node.sin.din)
    (hclean : f.sin.dirty = false) :
    v.step w (.file n op) = .ok (v.put n f.fs f.sin) ∧ ¬(v.put n f.fs f.sin).Tracked := by
  have hresized := h.resized hcache htype hexec
  constructor
  · have hsome : (v.cache n).isSome = true := by rw [hcache]; rfl
    change (if (v.cache n).isSome = true then v.fileOp w n op else .ok v) = _
    rw [if_pos hsome, Vol.fileOp, if_neg (by rw [din_of_cache hcache]; exact htype), sin_of_cache hcache, hexec]
    rfl
  · intro htracked
    -- the operation wrote blocks of the file, and the block of the inode is not one
    have hkept : Kept v.fs (v.din n) f.fs f.sin.din := by
      rw [din_of_cache hcache]
      exact hresized.kept
    have hself := (h.sound.keep_self (h.sound.mem hcache) hkept).2
    have hcache' : (v.put n f.fs f.sin).cache n = some { node with sin := f.sin } := by
      rw [put_eq hcache, replace_cache_self]
    have hlinks' : f.sin.din.nlinks ≠ 0 := by
      rw [hresized.nlinks]
      exact hlinks
    have hdirty := htracked n _ hcache' hlinks' fun heq => hne (by
      change f.sin.din = .ofBlock (f.fs.disk n) at heq
      rw [heq, hself, hdisk])
    grind

/-- A file that is on disk, and that cannot get all the blocks for its new length. -/
lemma Inv.truncate_not_tracked (hclean : node.sin.dirty = false) (len : ℕ)
    (hlen : len ≤ maxFileSize) (hne : node.sin.din.size ≠ len) (hind : node.sin.din.indirect ≠ 0)
    (hlow : ndirect ≤ node.sin.din.blocks) (hhigh : ceilBlocks len ≤ ndirect + nentry)
    (hnone : ∀ i : Fin nentry, node.sin.din.blocks ≤ ndirect + i → ndirect + i < ceilBlocks len →
      v.fs.sub node.sin.din.indirect i = 0)
    (hsome : v.fs.unusedBlocks ≠ 0) (hfull : node.sin.din.blocks + v.fs.unusedBlocks < ceilBlocks len) :
    ∃ v', v.step w (.file n (.truncate len)) = .ok v' ∧ ¬v'.Tracked := by
  have hok := h.sound.fileOk (h.sound.mem hcache) (by rw [din_of_cache hcache]; exact htype)
  rw [sin_of_cache hcache] at hok
  obtain ⟨fs', htrunc⟩ := sfsTruncfile_unmarked len hok hlen hne hind hlow hhigh hnone hfull
  have hexec : FileState.exec w ⟨v.fs, node.sin⟩ (.truncate len) = .ok (⟨fs', { node.sin with
      din := { node.sin.din with blocks := node.sin.din.blocks + v.fs.unusedBlocks } }⟩,
      ⟨0, [], some .noMem⟩) := by
    rw [FileState.exec, htrunc]
    rfl
  refine ⟨_, h.unmarked hcache htype hlinks hdisk hexec (fun heq => ?_) hclean⟩
  grind

end

/-- An unmarked change of the number of blocks is one that nothing keeps track of. -/
lemma Inv.not_tracked {e : Event} (h : v.Inv) (htracked : v.Tracked)
    (hmarks : ¬v.Marks w e) : Except.Ensures (fun _ => False) (v.step w e) fun v' => ¬v'.Tracked := by
  cases e with
  | file n op =>
    rw [Marks] at hmarks
    push Not at hmarks
    obtain ⟨node, f, r, hcache, htype, hlinks, hexec, hne, hdirty⟩ := hmarks
    have hclean : f.sin.dirty = false := by simpa using hdirty
    -- the flag is never cleared here: the inode was clean before, so it was the one on disk
    have hdisk : node.sin.din = .ofBlock (v.fs.disk n) := by
      by_contra hdiff
      have hdirty0 := htracked n node hcache hlinks hdiff
      rw [((h.resized hcache htype hexec).clean hclean).1] at hdirty0
      cases hdirty0
    obtain ⟨hstep, hnot⟩ := h.unmarked hcache htype hlinks hdisk hexec (fun heq => hne (by rw [heq])) hclean
    rw [hstep]
    exact hnot
  | _ => exact absurd trivial hmarks

end Vol

/-- A file is made on an empty volume of twenty blocks, it is given thirteen blocks, and it is written to
disk. The last of its blocks is below the indirect block, and one block is left. -/
def thirteenBlocks : List Vol.Event :=
  [.getRoot fun _ => true, .create (fun _ => true) blknRoot ⟨[102], by decide⟩ false,
    .file 3 (.truncate (13 * 4096)), .fsync 3]

lemma thirteenBlocks_legal (w : Width) : AllSafe (Vol.step w) Vol.Legal twentyBlocks.toVol thirteenBlocks :=
  twentyBlocks.inv.allSafe_legal w (show 20 ≤ 65533 by decide) (by simp [thirteenBlocks, Vol.Event.Forward])

/-- What the volume is like then. -/
def Vol.Thirteen (v : Vol) : Prop :=
  v.fs.unusedBlocks = 1 ∧ ∃ node ∈ v.cache 3, node.sin.dirty = false ∧ node.sin.din.type = .file ∧
    node.sin.din.nlinks = 1 ∧ node.sin.din.blocks = 13 ∧ node.sin.din.size = 53248 ∧
    node.sin.din.indirect ≠ 0 ∧ node.sin.din = .ofBlock (v.fs.disk 3) ∧
    v.fs.sub node.sin.din.indirect 1 = 0 ∧ v.fs.sub node.sin.din.indirect 2 = 0

instance : DecidablePred Vol.Thirteen := fun _ => inferInstanceAs (Decidable (_ ∧ _))

lemma thirteenBlocks_run :
    ∃ v, thirteenBlocks.foldlM (Vol.step ⟨32, le_rfl⟩) twentyBlocks.toVol = .ok v ∧ v.Thirteen := by
  obtain ⟨v, hrun, hv⟩ := exists_ok_of_decide
    (x := thirteenBlocks.foldlM (Vol.step ⟨32, le_rfl⟩) twentyBlocks.toVol) (p := fun v => decide v.Thirteen)
    (by decide +kernel)
  exact ⟨v, hrun, of_decide_eq_true hv⟩

end UcoreKernel.Sfs
