import UcoreKernel.Fs.Sfs.BmapSpec
import UcoreKernel.Fs.Sfs.File

/-!
What a transfer does to a file.

The content of a file is one sequence of bytes, in which positions without a block count as zero. New
blocks are clear, so the block map can grow without changing it.
-/

namespace UcoreKernel.Sfs

open ByteBlock PointerTree Function List Pos

variable {fs fs' : Fs} {din din' : Din} {sin sin' : Sin} {p q : Pos} {index : ℕ}

/-! ### The bytes of a file -/

/-- The bytes of a file; zero where there is no block. -/
def content (fs : Fs) (din : Din) : Block := fun k =>
  match Pos.ofIndex (k / blkSize) with
  | some p => if ptrs fs din p = 0 then 0 else fs.disk (ptrs fs din p) (k % blkSize)
  | none => 0

/-- Every block below the largest number has a position. -/
lemma Pos.exists_ofIndex (h : index < ndirect + nentry + nentry * nentry) : ∃ p, ofIndex index = some p := by
  unfold ofIndex
  split_ifs with hdirect hind hdb
  any_goals exact ⟨_, rfl⟩
  exfalso
  refine hdb (Nat.div_lt_of_lt_mul ?_)
  omega

/-- New blocks are clear. -/
lemma content_extends (h : Extends fs din fs' din') : content fs' din' = content fs din := by
  funext k
  unfold content
  cases hpos : ofIndex (k / blkSize) with
  | none => rfl
  | some p =>
    have hleaf := leaf_of_ofIndex hpos
    dsimp only
    by_cases hp' : ptrs fs' din' p = 0
    · have hp : ptrs fs din p = 0 := by
        by_contra hne
        exact hne ((h.old p hne).symm.trans hp')
      rw [if_pos hp', if_pos hp]
    · rw [if_neg hp', h.data p hleaf hp']
      split_ifs with hp
      · rfl
      · rfl

/-- The content depends on the pointers, and not on the other fields. -/
lemma content_congr (hptrs : ptrs fs din' = ptrs fs din) : content fs din' = content fs din := by
  unfold content
  rw [hptrs]

/-- Writing into a block of the file leaves the pointers alone. -/
lemma ptrs_setBlock (hheld : Held fs din) (hleaf : p.Leaf) (b : Block) :
    ptrs (fs.setBlock (ptrs fs din p) b) din = ptrs fs din := by
  refine (ptrs_reads _ _).unique ((ptrs_reads fs din).congr (fun _ _ => rfl) fun r t hparent ht => ?_)
  have hne : ptrs fs din t ≠ ptrs fs din p := by
    intro heq
    have hleaf' := not_leaf_of_parent hparent
    rw [hheld.inj t p ht heq] at hleaf'
    exact hleaf' hleaf
  simp [Fs.setBlock, update_of_ne hne]

/-- Writing into a block of the file changes no block of another one. -/
lemma Kept.setBlock (hok : FsOk fs) (hheld : Held fs din) (hleaf : p.Leaf) (b : Block) :
    Kept fs din (fs.setBlock (ptrs fs din p) b) din := by
  have hptrs := ptrs_setBlock hheld hleaf b
  refine ⟨hok.setBlock _ _, ?_, rfl, fun q _ => .inl ⟨q, by rw [hptrs]⟩, fun c hc hother => ⟨hc, ?_⟩⟩
  · rw [Held, hptrs]
    exact hheld
  · simp [Fs.setBlock, update_of_ne (Ne.symm (hother p))]

/-- A write into one block is a write at that place of the file. -/
lemma content_setBlock (hheld : Held fs din) (hpos : ofIndex index = some p)
    (hp : ptrs fs din p ≠ 0) {off : ℕ} {bytes : List UInt8} (hsize : off + bytes.length ≤ blkSize) :
    content (fs.setBlock (ptrs fs din p) (write (fs.disk (ptrs fs din p)) off bytes)) din =
      write (content fs din) (index * blkSize + off) bytes := by
  have hptrs := ptrs_setBlock hheld (leaf_of_ofIndex hpos) (write (fs.disk (ptrs fs din p)) off bytes)
  have hpositive : 0 < blkSize := by decide
  funext k
  have hk := Nat.div_add_mod k blkSize
  rw [write_apply, content, hptrs]
  by_cases hindex : k / blkSize = index
  · -- in the block itself
    have hkoff : k = index * blkSize + k % blkSize := by rw [← hindex, mul_comm]; omega
    rw [hindex, hpos]
    dsimp only
    rw [if_neg hp]
    simp only [Fs.setBlock, update_self]
    rw [write_apply]
    by_cases hin : off ≤ k % blkSize ∧ k % blkSize < off + bytes.length
    · grind
    · grind [content]
  · -- in another block
    have hout : ¬(index * blkSize + off ≤ k ∧ k < index * blkSize + off + bytes.length) := by
      intro hin
      refine hindex ?_
      rw [Nat.div_eq_iff hpositive]
      constructor
      · omega
      · omega
    rw [if_neg hout, content]
    cases hpos' : ofIndex (k / blkSize) with
    | none => rfl
    | some q =>
      dsimp only
      by_cases hq : ptrs fs din q = 0
      · rw [if_pos hq, if_pos hq]
      · have hqp : q ≠ p := by grind [ofIndex_inj]
        have hne : ptrs fs din q ≠ ptrs fs din p := fun heq => hqp (hheld.inj q p hq heq)
        rw [if_neg hq, if_neg hq]
        simp [Fs.setBlock, update_of_ne hne]

/-- The bytes of one block are read at that place of the file. -/
lemma read_content (hpos : ofIndex index = some p) (hp : ptrs fs din p ≠ 0) {off len : ℕ}
    (hsize : off + len ≤ blkSize) :
    read (content fs din) (index * blkSize + off) len = read (fs.disk (ptrs fs din p)) off len := by
  refine map_congr_left fun i _ => ?_
  grind [blkSize, content]

/-! ### The blocks of a file -/

/-- The blocks below `din->blocks` are there. -/
structure Mapped (fs : Fs) (sin : Sin) : Prop where
  ok : FsOk fs
  held : Held fs sin.din
  mapped : ∀ i < sin.din.blocks, ∃ p, Pos.ofIndex i = some p ∧ ptrs fs sin.din p ≠ 0

/-- A file with all its blocks, whose size is not beyond the block after them. -/
structure FileOk (fs : Fs) (sin : Sin) : Prop extends Mapped fs sin where
  type : sin.din.type ≠ .dir
  size : sin.din.size ≤ (sin.din.blocks + 1) * blkSize

/-- Only the size, the block map and the number of blocks of an inode change. An inode that is not dirty
afterwards has got blocks at most. -/
structure Resized (fs : Fs) (sin : Sin) (fs' : Fs) (sin' : Sin) : Prop where
  kept : Kept fs sin.din fs' sin'.din
  same : sin'.din = { sin.din with
    size := sin'.din.size, blocks := sin'.din.blocks
    direct := sin'.din.direct, indirect := sin'.din.indirect, dbIndirect := sin'.din.dbIndirect }
  clean : sin'.dirty = false → sin.dirty = false ∧ sin.din.blocks ≤ sin'.din.blocks ∧
    sin'.din = { sin.din with blocks := sin'.din.blocks }

namespace Resized

lemma refl (h : Mapped fs sin) : Resized fs sin fs sin :=
  ⟨Kept.refl h.ok h.held, rfl, fun hclean => ⟨hclean, le_rfl, rfl⟩⟩

variable (h : Resized fs sin fs' sin')
include h

lemma trans {fs'' : Fs} {sin'' : Sin} (h' : Resized fs' sin' fs'' sin'') : Resized fs sin fs'' sin'' := by
  refine ⟨h.kept.trans h'.kept, by rw [h'.same, h.same], fun hclean => ?_⟩
  obtain ⟨hclean', hle', hdin'⟩ := h'.clean hclean
  obtain ⟨hclean, hle, hdin⟩ := h.clean hclean'
  refine ⟨hclean, hle.trans hle', ?_⟩
  rw [hdin', hdin]

lemma type : sin'.din.type = sin.din.type := by rw [h.same]

lemma nlinks : sin'.din.nlinks = sin.din.nlinks := by rw [h.same]

end Resized

/-- Only the block map of an inode changes, and the number of its blocks. -/
structure Remapped (fs : Fs) (sin : Sin) (fs' : Fs) (sin' : Sin) : Prop extends
    Resized fs sin fs' sin' where
  size : sin'.din.size = sin.din.size

namespace Remapped

lemma refl (h : Mapped fs sin) : Remapped fs sin fs sin := ⟨Resized.refl h, rfl⟩

lemma trans {fs'' : Fs} {sin'' : Sin} (h : Remapped fs sin fs' sin')
    (h' : Remapped fs' sin' fs'' sin'') : Remapped fs sin fs'' sin'' :=
  ⟨h.toResized.trans h'.toResized, h'.size.trans h.size⟩

end Remapped

/-- What `sfs_bmap_load_nolock` does to an inode: the block is found or made, or there are too few free
blocks to make it. -/
lemma Mapped.load (h : Mapped fs sin) (hindex : index ≤ sin.din.blocks)
    (hpos : ofIndex index = some p) : ∃ fs' sin', Mapped fs' sin' ∧ Remapped fs sin fs' sin' ∧
      content fs' sin'.din = content fs sin.din ∧ fs.unusedBlocks ≤ fs'.unusedBlocks + 3 ∧
      ((bmapLoad fs sin index = .ok (fs', sin', none) ∧ index = sin.din.blocks ∧
        sin'.din.blocks = sin.din.blocks ∧ fs.unusedBlocks ≤ 2) ∨
      (bmapLoad fs sin index = .ok (fs', sin', some (ptrs fs' sin'.din p)) ∧
        ptrs fs' sin'.din p ≠ 0 ∧ sin'.din.blocks = max sin.din.blocks (index + 1))) := by
  obtain hlt | rfl := Nat.lt_or_eq_of_le hindex
  · -- the block is there already
    obtain ⟨q, hpos', hq⟩ := h.mapped index hlt
    cases hpos'.symm.trans hpos
    exact ⟨fs, sin, h, Remapped.refl h, rfl, by omega, .inr ⟨bmapLoad_find h.held hpos hlt hq, hq, by omega⟩⟩
  · obtain ⟨fs', sin', hgot, hresult⟩ := bmapLoad_create h.ok h.held hpos
    have hext := hgot.ext
    have hsame := hext.same
    have hblocks : sin'.din.blocks = sin.din.blocks := by rw [hsame]
    have hmapped : ∀ i < sin.din.blocks, ∃ q, ofIndex i = some q ∧ ptrs fs' sin'.din q ≠ 0 := by
      intro i hi
      obtain ⟨q, hq, hne⟩ := h.mapped i hi
      exact ⟨q, hq, hext.old q hne ▸ hne⟩
    have hclean : sin'.dirty = false → sin' = sin := fun hclean =>
      hgot.dirty.resolve_right (by simp [hclean])
    obtain ⟨hload, -, -, hle⟩ | ⟨hload, hp⟩ := hresult
    · refine ⟨fs', sin', ⟨hext.ok, hext.held, ?_⟩, ⟨⟨hext.toKept, ?_, fun hdirty => ?_⟩, ?_⟩,
        content_extends hext, hgot.unused, .inl ⟨hload, rfl, hblocks, hle⟩⟩
      · rw [hblocks]
        exact hmapped
      · rw [hsame]
      · grind
      · rw [hsame]
    · have hptrs : ptrs fs' { sin'.din with blocks := sin.din.blocks + 1 } = ptrs fs' sin'.din :=
        ptrs_congr rfl rfl rfl
      refine ⟨fs', { sin' with din := { sin'.din with blocks := sin.din.blocks + 1 } },
        ⟨hext.ok, ?_, ?_⟩, ⟨⟨⟨hext.ok, ?_, hext.blocks, ?_, hext.keep⟩, ?_, fun hdirty => ?_⟩, ?_⟩,
        ?_, hgot.unused, .inr ⟨?_, ?_, ?_⟩⟩
      · rw [Held, hptrs]
        exact hext.held
      · intro i hi
        rw [hptrs]
        obtain hi | rfl := Nat.lt_or_eq_of_le (Nat.lt_succ_iff.mp hi)
        · exact hmapped i hi
        · exact ⟨p, hpos, hp⟩
      · rw [Held, hptrs]
        exact hext.held
      · rw [hptrs]
        exact hext.fresh
      · grind
      · grind
      · change sin'.din.size = _
        rw [hsame]
      · exact (content_congr hptrs).trans (content_extends hext)
      · rw [hptrs]
        exact hload
      · rw [hptrs]
        exact hp
      · change sin.din.blocks + 1 = _
        omega

/-- The same for a file. -/
lemma FileOk.load (h : FileOk fs sin) (hindex : index ≤ sin.din.blocks)
    (hpos : ofIndex index = some p) : ∃ fs' sin', FileOk fs' sin' ∧ Remapped fs sin fs' sin' ∧
      content fs' sin'.din = content fs sin.din ∧
      ((bmapLoad fs sin index = .ok (fs', sin', none) ∧ index = sin.din.blocks ∧
        sin'.din.blocks = sin.din.blocks) ∨
      (bmapLoad fs sin index = .ok (fs', sin', some (ptrs fs' sin'.din p)) ∧
        ptrs fs' sin'.din p ≠ 0 ∧ sin'.din.blocks = max sin.din.blocks (index + 1))) := by
  obtain ⟨fs', sin', hmapped, hremapped, hcontent, -, hresult⟩ := h.toMapped.load hindex hpos
  have hle : sin.din.blocks ≤ sin'.din.blocks := by grind
  refine ⟨fs', sin', ⟨hmapped, ?_, ?_⟩, hremapped, hcontent, ?_⟩
  · rw [hremapped.type]
    exact h.type
  · rw [hremapped.size]
    exact h.size.trans (Nat.mul_le_mul_right _ (by omega))
  · grind

/-- A write into a block of the file. -/
lemma FileOk.setBlock (h : FileOk fs sin) (hleaf : p.Leaf) (b : Block) :
    FileOk (fs.setBlock (ptrs fs sin.din p) b) sin ∧
      Remapped fs sin (fs.setBlock (ptrs fs sin.din p) b) sin := by
  have hkept := Kept.setBlock h.ok h.held hleaf b
  refine ⟨⟨⟨hkept.ok, hkept.held, ?_⟩, h.type, h.size⟩, ⟨⟨hkept, rfl, fun hclean =>
    ⟨hclean, le_rfl, rfl⟩⟩, rfl⟩⟩
  rw [ptrs_setBlock h.held hleaf b]
  exact h.mapped

/-! ### One piece of a transfer -/

/-- The bytes that come out of a transfer. -/
def Io.output (io : Io) (c : Block) (pos n : ℕ) : List UInt8 :=
  match io with
  | .read => ByteBlock.read c pos n
  | .write _ => []

/-- The bytes of the file after a transfer of `n` bytes, which for a write are those from `alen` on. -/
def Io.stored (io : Io) (c : Block) (pos alen n : ℕ) : Block :=
  match io with
  | .read => c
  | .write buf => ByteBlock.write c pos ((buf.drop alen).take n)

/-- `n` bytes have been transferred, from the position `pos` of the file on. -/
structure Moved (io : Io) (pos : ℕ) (x x' : Xfer) (n : ℕ) : Prop where
  ok : FileOk x'.fs x'.sin
  remapped : Remapped x.fs x.sin x'.fs x'.sin
  alen : x'.alen = x.alen + n
  out : x'.out = x.out ++ io.output (content x.fs x.sin.din) pos n
  content : content x'.fs x'.sin.din = io.stored (content x.fs x.sin.din) pos x.alen n

lemma Io.output_zero (io : Io) (c : Block) (pos : ℕ) : io.output c pos 0 = [] := by
  cases io <;> rfl

lemma Io.stored_zero (io : Io) (c : Block) (pos alen : ℕ) : io.stored c pos alen 0 = c := by
  cases io with
  | read => rfl
  | write buf => rw [Io.stored, take_zero, write_nil]

/-- The bytes to be written are there. -/
def Io.Provides (io : Io) (n : ℕ) : Prop :=
  match io with
  | .read => True
  | .write buf => n ≤ buf.length

lemma Io.Provides.mono {io : Io} {m n : ℕ} (h : io.Provides n) (hmn : m ≤ n) : io.Provides m := by
  cases io with
  | read => trivial
  | write buf => exact hmn.trans h

namespace Moved

variable {io : Io} {pos m n : ℕ} {x x' x'' : Xfer}

/-- Pieces that follow each other are one piece. -/
lemma trans (h : Moved io pos x x' m) (h' : Moved io (pos + m) x' x'' n)
    (hbuf : io.Provides (x.alen + m)) : Moved io pos x x'' (m + n) := by
  refine ⟨h'.ok, h.remapped.trans h'.remapped, ?_, ?_, ?_⟩
  · rw [h'.alen, h.alen, add_assoc]
  · rw [h'.out, h.out, h.content, append_assoc]
    congr 1
    cases io with
    | read => exact read_append _ _ _ _
    | write buf => rfl
  · rw [h'.content, h.content, h.alen]
    cases io with
    | read => rfl
    | write buf =>
      have hle : x.alen + m ≤ buf.length := hbuf
      have hlen : ((buf.drop x.alen).take m).length = m := by
        rw [length_take, length_drop]
        omega
      have hwrite := write_append (Sfs.content x.fs x.sin.din) pos ((buf.drop x.alen).take m)
        ((buf.drop (x.alen + m)).take n)
      rw [hlen] at hwrite
      change write (write _ _ _) _ _ = write _ _ _
      rw [hwrite, ← drop_drop, ← take_add]

end Moved

/-- One piece of a transfer, within one block. -/
lemma xferStep_spec {io : Io} (whole : Bool) {x : Xfer} {blkno blkoff size : ℕ}
    (h : FileOk x.fs x.sin) (hindex : blkno ≤ x.sin.din.blocks)
    (hpos : ofIndex blkno = some p) (hoff : blkoff < blkSize) (hsize : blkoff + size ≤ blkSize)
    (hwhole : whole = true → blkoff = 0 ∧ size = blkSize) (hbuf : io.Provides (x.alen + size)) :
    ∃ x' ok, xferStep io whole x blkno blkoff size = .ok (x', ok) ∧
      ((ok = true ∧ Moved io (blkno * blkSize + blkoff) x x' size ∧
        x'.sin.din.blocks = max x.sin.din.blocks (blkno + 1)) ∨
      (ok = false ∧ Moved io (blkno * blkSize + blkoff) x x' 0 ∧ blkno = x.sin.din.blocks ∧
        x'.sin.din.blocks = x.sin.din.blocks)) := by
  obtain ⟨fs', sin', hfile, hremapped, hcontent, hresult⟩ := h.load hindex hpos
  have hleaf := leaf_of_ofIndex hpos
  rw [xferStep]
  obtain ⟨hload, hblkno, hblocks⟩ | ⟨hload, hp, hblocks⟩ := hresult
  · -- the block could not be had
    refine ⟨{ x with fs := fs', sin := sin' }, false, ?_, .inr ⟨rfl, ⟨hfile, hremapped, rfl, ?_, ?_⟩, hblkno, hblocks⟩⟩
    · rw [hload]
      rfl
    · rw [io.output_zero, append_nil]
    · rw [io.stored_zero]
      exact hcontent
  · have hused := hfile.held.used p hp
    rw [hload, ok_bind]
    dsimp only
    cases io with
    | read =>
      have hread : readOp fs' whole size (ptrs fs' sin'.din p) blkoff =
          .ok (read (fs'.disk (ptrs fs' sin'.din p)) blkoff size) := by
        rw [readOp]
        split_ifs with hwhole'
        · obtain ⟨rfl, rfl⟩ := hwhole hwhole'
          rw [Fs.rblock, Fs.rwCheck_of_used hused]
          rfl
        · exact Fs.rbuf_of_used hused hoff hsize
      refine ⟨⟨fs', sin', x.alen + size, x.out ++ read (fs'.disk (ptrs fs' sin'.din p)) blkoff size⟩,
        true, ?_, .inl ⟨rfl, ⟨hfile, hremapped, rfl, ?_, hcontent⟩, hblocks⟩⟩
      · rw [bufOp]
        rw [hread]
        rfl
      · rw [Io.output, ← hcontent, read_content hpos hp hsize]
    | write buf =>
      have hle : x.alen + size ≤ buf.length := hbuf
      have hlen : ((buf.drop x.alen).take size).length = size := by
        rw [length_take, length_drop]
        omega
      set blk := write (fs'.disk (ptrs fs' sin'.din p)) blkoff ((buf.drop x.alen).take size) with hblk
      have hwrite : writeOp fs' whole ((buf.drop x.alen).take size) (ptrs fs' sin'.din p) blkoff =
          .ok (fs'.setBlock (ptrs fs' sin'.din p) blk) := by
        rw [writeOp]
        split_ifs with hwhole'
        · obtain ⟨rfl, rfl⟩ := hwhole hwhole'
          rw [Fs.wblock, Fs.rwCheck_of_used hused]
          rfl
        · grind [Fs.wbuf_of_used]
      obtain ⟨hfile', hremapped'⟩ := hfile.setBlock hleaf blk
      refine ⟨⟨fs'.setBlock (ptrs fs' sin'.din p) blk, sin', x.alen + size, x.out⟩, true, ?_,
        .inl ⟨rfl, ⟨hfile', hremapped.trans hremapped', rfl, (append_nil _).symm, ?_⟩, hblocks⟩⟩
      · rw [bufOp]
        rw [hwrite]
        rfl
      · rw [content_setBlock hfile.held hpos hp (by rw [hlen]; exact hsize), hcontent, Io.stored]

/-! ### A whole transfer -/

/-- The number of blocks for a size. -/
def ceilBlocks (n : ℕ) : ℕ := (n + blkSize - 1) / blkSize

lemma ceilBlocks_of_mod {n : ℕ} (h : n % blkSize ≠ 0) : ceilBlocks n = n / blkSize + 1 := by
  unfold ceilBlocks blkSize at *
  omega

/-- A transfer has come to its end, or to a block that could not be had. -/
def Ended (io : Io) (pos endpos : ℕ) (x x' : Xfer) (ok : Bool) : Prop :=
  ∃ n, Moved io pos x x' n ∧
    ((ok = true ∧ pos + n = endpos ∧
      x'.sin.din.blocks = max x.sin.din.blocks (ceilBlocks endpos)) ∨
    (ok = false ∧ pos + n < endpos ∧ x.sin.din.blocks ≤ x'.sin.din.blocks ∧
      ((n = 0 ∧ pos / blkSize = x.sin.din.blocks ∧ x'.sin.din.blocks = x.sin.din.blocks) ∨
        (0 < n ∧ pos + n = x'.sin.din.blocks * blkSize))))

section Whole

variable {io : Io} {pos endpos blkno nblks : ℕ} {x : Xfer}

/-- Every block of a file has a position. -/
lemma exists_ofIndex_of_lt (h : index * blkSize < maxFileSize) : ∃ p, ofIndex index = some p := by
  refine exists_ofIndex ?_
  unfold blkSize maxFileSize ndirect nentry blkSize at *
  omega

/-- No bytes have been transferred yet. -/
lemma Moved.refl (io : Io) (pos : ℕ) (h : FileOk x.fs x.sin) : Moved io pos x x 0 := by
  refine ⟨h, Remapped.refl h.toMapped, rfl, ?_, ?_⟩
  · rw [io.output_zero, append_nil]
  · rw [io.stored_zero]

variable (h : FileOk x.fs x.sin)
include h

lemma ioTail_spec (hindex : blkno ≤ x.sin.din.blocks)
    (hblkno : endpos / blkSize = blkno) (hend : endpos ≤ maxFileSize)
    (hbuf : io.Provides (x.alen + (endpos - blkno * blkSize))) :
    ∃ x' ok, ioTail io endpos x blkno = .ok (x', ok) ∧ Ended io (blkno * blkSize) endpos x x' ok := by
  have hdiv := Nat.div_add_mod endpos blkSize
  rw [hblkno, mul_comm] at hdiv
  rw [ioTail]
  by_cases htail : endpos % blkSize = 0
  · refine ⟨x, true, if_neg (not_not.mpr htail), 0, Moved.refl io _ h, .inl ⟨rfl, by omega, ?_⟩⟩
    unfold ceilBlocks blkSize at *
    omega
  · have hmod := Nat.mod_lt endpos (show 0 < blkSize by decide)
    obtain ⟨p, hpos⟩ := exists_ofIndex_of_lt (show blkno * blkSize < maxFileSize by omega)
    obtain ⟨x', ok, hstep, hresult⟩ := xferStep_spec false h hindex
      hpos (by decide) (show 0 + endpos % blkSize ≤ blkSize by omega) nofun
      (show io.Provides (x.alen + endpos % blkSize) by grind)
    refine ⟨x', ok, (if_pos htail).trans hstep, ?_⟩
    rw [add_zero] at hresult
    obtain ⟨rfl, hmoved, hblocks⟩ | ⟨rfl, hmoved, hlast, hblocks⟩ := hresult
    · refine ⟨_, hmoved, .inl ⟨rfl, by omega, ?_⟩⟩
      unfold ceilBlocks blkSize at *
      omega
    · refine ⟨_, hmoved, .inr ⟨rfl, by omega, by omega, .inl ⟨rfl, ?_, hblocks⟩⟩⟩
      rw [Nat.mul_div_cancel _ (by decide), hlast]

lemma ioBlocks_spec (hindex : blkno ≤ x.sin.din.blocks)
    (hblkno : endpos / blkSize = blkno + nblks) (hend : endpos ≤ maxFileSize)
    (hbuf : io.Provides (x.alen + (endpos - blkno * blkSize))) :
    ∃ x' ok, ioBlocks io endpos nblks x blkno = .ok (x', ok) ∧ Ended io (blkno * blkSize) endpos x x' ok := by
  -- along the whole blocks, each of which is the next one at most
  induction nblks generalizing x blkno with
  | zero => exact ioTail_spec h hindex hblkno hend hbuf
  | succ nblks ih =>
    have hle : (blkno + 1) * blkSize ≤ endpos := by grind [blkSize]
    have hsucc : (blkno + 1) * blkSize = blkno * blkSize + blkSize := by ring
    have hpositive : 0 < blkSize := by decide
    obtain ⟨p, hpos⟩ := exists_ofIndex_of_lt (show blkno * blkSize < maxFileSize by omega)
    have hbuf' : io.Provides (x.alen + blkSize) := hbuf.mono (by omega)
    obtain ⟨x1, ok1, hstep, hresult⟩ := xferStep_spec true h hindex hpos (by decide)
      (by omega) (fun _ => ⟨rfl, rfl⟩) hbuf'
    rw [add_zero] at hresult
    rw [ioBlocks, hstep, ok_bind]
    obtain ⟨rfl, hmoved, hblocks⟩ | ⟨rfl, hmoved, hlast, hblocks⟩ := hresult
    · have halen := hmoved.alen
      obtain ⟨x', ok, hrest, n, hmoved', hend'⟩ := ih hmoved.ok (show blkno + 1 ≤ _ by omega)
        (by omega) (hbuf.mono (by omega))
      refine ⟨x', ok, hrest, blkSize + n, hmoved.trans (hsucc ▸ hmoved') hbuf', ?_⟩
      have hceil : blkno + 1 ≤ ceilBlocks endpos := by
        unfold ceilBlocks
        rw [Nat.le_div_iff_mul_le hpositive]
        omega
      obtain ⟨rfl, hn, hblocks'⟩ | ⟨rfl, hn, hle', hstop⟩ := hend'
      · exact .inl ⟨rfl, by omega, by omega⟩
      · grind [Nat.mul_div_cancel]
    · refine ⟨x1, false, rfl, 0, hmoved, .inr ⟨rfl, by omega, by omega, .inl ⟨rfl, ?_, hblocks⟩⟩⟩
      rw [Nat.mul_div_cancel _ hpositive, hlast]

/-- A transfer moves the bytes in order, up to its end or to a block that could not be had. -/
lemma ioHead_spec (hindex : pos / blkSize ≤ x.sin.din.blocks)
    (hlt : pos < endpos) (hend : endpos ≤ maxFileSize) (hbuf : io.Provides (x.alen + (endpos - pos))) :
    ∃ x' ok, ioHead io pos endpos x = .ok (x', ok) ∧ Ended io pos endpos x x' ok := by
  have hpositive : 0 < blkSize := by decide
  have hpos := Nat.div_add_mod pos blkSize
  have hposlt := Nat.mod_lt pos hpositive
  have hendpos := Nat.div_add_mod endpos blkSize
  have hendlt := Nat.mod_lt endpos hpositive
  have hdivle : pos / blkSize ≤ endpos / blkSize := Nat.div_le_div_right hlt.le
  rw [mul_comm] at hpos hendpos
  rw [ioHead]
  by_cases hhead : pos % blkSize = 0
  · rw [if_neg (not_not.mpr hhead)]
    have hposeq : pos / blkSize * blkSize = pos := by omega
    have hblocks := ioBlocks_spec h hindex
      (show endpos / blkSize = pos / blkSize + (endpos / blkSize - pos / blkSize) by omega) hend
      (by rwa [hposeq])
    rwa [hposeq] at hblocks
  · dsimp only
    rw [if_pos hhead]
    set size := if endpos / blkSize - pos / blkSize ≠ 0 then blkSize - pos % blkSize else endpos - pos with hsize
    have hsizele : pos % blkSize + size ≤ blkSize := by
      rw [hsize]
      split_ifs with hone
      · omega
      · grind
    have hsizepos : 0 < size ∧ pos + size ≤ endpos := by
      rw [hsize]
      split_ifs with hone
      · grind [blkSize]
      · omega
    obtain ⟨p, hp⟩ := exists_ofIndex_of_lt (show pos / blkSize * blkSize < maxFileSize by omega)
    have hbuf' : io.Provides (x.alen + size) := hbuf.mono (by omega)
    obtain ⟨x1, ok1, hstep, hresult⟩ := xferStep_spec false h hindex hp hposlt hsizele nofun hbuf'
    rw [hpos] at hresult
    rw [hstep, ok_bind]
    obtain ⟨rfl, hmoved, hblocks⟩ | ⟨rfl, hmoved, hlast, hblocks⟩ := hresult
    · by_cases hone : endpos / blkSize - pos / blkSize = 0
      · -- the transfer ends in the block it starts in
        have hsize' : size = endpos - pos := by rw [hsize, if_neg (not_not.mpr hone)]
        dsimp only
        rw [if_pos hone]
        refine ⟨x1, true, rfl, size, hmoved, .inl ⟨rfl, by omega, ?_⟩⟩
        grind [ceilBlocks_of_mod]
      · have hsize' : size = blkSize - pos % blkSize := by rw [hsize, if_pos hone]
        have hnext : pos + size = (pos / blkSize + 1) * blkSize := by
          rw [add_mul, one_mul]
          omega
        have halen := hmoved.alen
        dsimp only
        rw [if_neg hone]
        obtain ⟨x', ok, hrest, n, hmoved', hend'⟩ := ioBlocks_spec hmoved.ok
          (by omega)
          (show endpos / blkSize = pos / blkSize + 1 + (endpos / blkSize - pos / blkSize - 1) by omega)
          hend (hbuf.mono (by omega))
        refine ⟨x', ok, hrest, size + n, hmoved.trans (hnext ▸ hmoved') hbuf', ?_⟩
        have hceil : pos / blkSize + 1 ≤ ceilBlocks endpos := by
          unfold ceilBlocks
          rw [Nat.le_div_iff_mul_le hpositive]
          omega
        obtain ⟨rfl, hn, hblocks'⟩ | ⟨rfl, hn, hle', hstop⟩ := hend'
        · exact .inl ⟨rfl, by omega, by omega⟩
        · grind [Nat.mul_div_cancel]
    · refine ⟨x1, false, rfl, 0, hmoved, .inr ⟨rfl, by omega, by omega, .inl ⟨rfl, hlast, hblocks⟩⟩⟩

end Whole

end UcoreKernel.Sfs
