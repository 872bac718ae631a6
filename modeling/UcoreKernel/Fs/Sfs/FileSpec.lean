import UcoreKernel.Fs.Sfs.Transfer

/-!
What the operations on a file do.
-/

namespace UcoreKernel.Sfs

open ByteBlock PointerTree

variable {fs fs' : Fs} {din din' : Din} {sin sin' : Sin} {p q : Pos} {index : ℕ}

/-! ### Sizes and blocks -/

lemma le_ceilBlocks_mul (n : ℕ) : n ≤ ceilBlocks n * blkSize := by
  unfold ceilBlocks blkSize
  omega

lemma ceilBlocks_mono {m n : ℕ} (h : m ≤ n) : ceilBlocks m ≤ ceilBlocks n :=
  Nat.div_le_div_right (by omega)

lemma ceilBlocks_max (m n : ℕ) : ceilBlocks (max m n) = max (ceilBlocks m) (ceilBlocks n) := by
  obtain h | h := le_total m n
  · rw [max_eq_right h, max_eq_right (ceilBlocks_mono h)]
  · rw [max_eq_left h, max_eq_left (ceilBlocks_mono h)]

lemma ceilBlocks_mul (n : ℕ) : ceilBlocks (n * blkSize) = n := by
  unfold ceilBlocks blkSize
  omega

/-- A sum that is not negative can only get smaller as an `off_t`. -/
lemma Width.offT_le (w : Width) {n : ℤ} (h : 0 ≤ n) : w.offT n ≤ n := by
  have hpos : (0 : ℤ) ≤ (2 ^ w.bits : ℕ) := Int.natCast_nonneg _
  have hmod : n % (2 ^ w.bits : ℕ) ≤ n := by
    have hdiv := Int.emod_add_mul_ediv n (2 ^ w.bits : ℕ)
    have hnonneg := mul_nonneg hpos (Int.ediv_nonneg h hpos)
    linarith
  grind [Width.offT]

/-! ### Transfers -/

/-- What a transfer leaves behind. -/
structure Ran (io : Io) (pos endpos : ℕ) (fs : Fs) (sin : Sin) (fs' : Fs) (sin' : Sin)
    (r : IoResult) : Prop where
  ok : FileOk fs' sin'
  resized : Resized fs sin fs' sin'
  size : sin'.din.size = max sin.din.size (pos + r.alen)
  out : r.out = io.output (content fs sin.din) pos r.alen
  content : content fs' sin'.din = io.stored (content fs sin.din) pos 0 r.alen
  ended : (r.err = none ∧ pos + r.alen = endpos ∧
      sin'.din.blocks = max sin.din.blocks (ceilBlocks endpos)) ∨
    (r.err = some .noMem ∧ pos + r.alen < endpos ∧ sin.din.blocks ≤ sin'.din.blocks ∧
      ((r.alen = 0 ∧ pos / blkSize = sin.din.blocks ∧ sin'.din.blocks = sin.din.blocks) ∨
        (0 < r.alen ∧ pos + r.alen = sin'.din.blocks * blkSize)))

variable {pos : ℕ} {x : Xfer}

/-- A file that got longer has a new size. -/
lemma ioOut_spec (h : FileOk x.fs x.sin) (hsize : pos + x.alen ≤ (x.sin.din.blocks + 1) * blkSize) :
    FileOk x.fs (ioOut pos x) ∧ Resized x.fs x.sin x.fs (ioOut pos x) ∧
      (ioOut pos x).din.size = max x.sin.din.size (pos + x.alen) ∧ (ioOut pos x).din.blocks = x.sin.din.blocks ∧
      Sfs.content x.fs (ioOut pos x).din = Sfs.content x.fs x.sin.din := by
  rw [ioOut]
  split_ifs with hlonger
  · have hptrs : ptrs x.fs { x.sin.din with size := pos + x.alen } = ptrs x.fs x.sin.din :=
      ptrs_congr rfl rfl rfl
    have hheld : Held x.fs { x.sin.din with size := pos + x.alen } := by
      rw [Held, hptrs]
      exact h.held
    refine ⟨⟨⟨h.ok, hheld, ?_⟩, h.type, hsize⟩, ⟨⟨h.ok, hheld, rfl, ?_, ?_⟩, rfl, by simp⟩, ?_, rfl, content_congr hptrs⟩
    · rw [hptrs]
      exact h.mapped
    · intro p _
      rw [hptrs]
      exact .inl ⟨p, rfl⟩
    · intro b hb _
      exact ⟨hb, rfl⟩
    · exact (max_eq_right hlonger.le).symm
  · exact ⟨h, Resized.refl h.toMapped, (max_eq_left (not_lt.mp hlonger)).symm, rfl, rfl⟩

variable {io : Io} {endpos : ℕ}

/-- The transfer of a range that starts in a block of the file or in the one after the last. -/
lemma ioRange_spec (h : FileOk fs sin)
    (hindex : pos / blkSize ≤ sin.din.blocks) (hlt : pos < endpos) (hend : endpos ≤ maxFileSize)
    (hbuf : io.Provides (endpos - pos)) : ∃ fs' sin' r, ioRange fs sin io pos endpos = .ok (fs', sin', r) ∧
      Ran io pos endpos fs sin fs' sin' r := by
  obtain ⟨x, ok, hhead, n, hmoved, hended⟩ := ioHead_spec (x := ⟨fs, sin, 0, []⟩) h hindex hlt hend (by rwa [zero_add])
  have halen : x.alen = n := by
    rw [hmoved.alen]
    exact zero_add n
  have hsize : pos + x.alen ≤ (x.sin.din.blocks + 1) * blkSize := by
    rw [halen]
    obtain ⟨-, hn, hblocks⟩ | ⟨-, hn, hle, ⟨rfl, hdiv, -⟩ | ⟨-, hn'⟩⟩ := hended
    · rw [hn]
      refine (le_ceilBlocks_mul endpos).trans (Nat.mul_le_mul_right _ ?_)
      omega
    · have hlt := Nat.lt_mul_div_succ pos (show 0 < blkSize by decide)
      rw [add_zero]
      refine hlt.le.trans ?_
      rw [mul_comm, hdiv]
      exact Nat.mul_le_mul_right _ (by dsimp only at hle; omega)
    · rw [hn']
      exact Nat.mul_le_mul_right _ (by omega)
  obtain ⟨hok, hresized, hsize', hblocks, hcontent⟩ := ioOut_spec hmoved.ok hsize
  refine ⟨x.fs, ioOut pos x, ⟨x.alen, x.out, if ok then none else some .noMem⟩, ?_, hok,
    hmoved.remapped.toResized.trans hresized, ?_, ?_, ?_, ?_⟩
  · rw [ioRange, hhead]
    rfl
  · rw [hsize', hmoved.remapped.size]
  · rw [hmoved.out, halen]
    exact List.nil_append _
  · rw [hcontent, hmoved.content, halen]
  · grind

/-- The first piece of a transfer. -/
lemma xferStep_beyond {whole : Bool} {blkno blkoff size : ℕ}
    (h : x.sin.din.blocks < blkno) : xferStep io whole x blkno blkoff size = .error .loadIndex := by
  rw [xferStep, bmapLoad, if_pos h]
  rfl

/-- A transfer that starts further away fails the assertion on the index. -/
lemma ioRange_beyond (hindex : sin.din.blocks < pos / blkSize)
    (hlt : pos < endpos) : ioRange fs sin io pos endpos = .error .loadIndex := by
  have hhead : ioHead io pos endpos ⟨fs, sin, 0, []⟩ = .error .loadIndex := by
    have hpos := Nat.div_add_mod pos blkSize
    have hend := Nat.div_add_mod endpos blkSize
    rw [ioHead]
    dsimp only
    by_cases hoff : pos % blkSize ≠ 0
    · rw [if_pos hoff, xferStep_beyond hindex]
      rfl
    · rw [if_neg hoff]
      cases hnblks : endpos / blkSize - pos / blkSize with
      | zero =>
        -- the range is within one block, so it has a tail
        grind [blkSize, ioBlocks, ioTail, xferStep_beyond]
      | succ nblks =>
        rw [ioBlocks, xferStep_beyond hindex]
        rfl
  rw [ioRange, hhead]
  rfl

/-- Where a transfer ends that is to reach `endpos`. -/
def Io.stop (io : Io) (endpos : ℤ) (size : ℕ) : ℕ :=
  match io with
  | .write _ => (min endpos maxFileSize).toNat
  | .read => (min (min endpos maxFileSize) size).toNat

/-- Nothing is transferred: the range is not one of a file, it is empty, or a read starts at the end of
the file or behind it. -/
def Io.Idle (io : Io) (endpos : ℤ) (size : ℕ) (offset : ℤ) : Option Errno → Prop
  | some err => err = .inval ∧ (offset < 0 ∨ offset ≥ maxFileSize ∨ offset > endpos)
  | none => 0 ≤ offset ∧ offset < maxFileSize ∧
      (offset = endpos ∨ (offset < endpos ∧ io = .read ∧ offset ≥ size))

/-- `sfs_io_nolock` on a file. -/
lemma sfsIoNolock_spec (w : Width) (offset : ℤ) {len : ℕ} (h : FileOk fs sin)
    (hbuf : io.Provides len) : (∃ err, sfsIoNolock w fs sin io offset len = .ok (fs, sin, ⟨0, [], err⟩) ∧
      io.Idle (w.offT (offset + len)) sin.din.size offset err) ∨
    ∃ pos endpos : ℕ, offset = pos ∧ endpos = io.stop (w.offT (offset + len)) sin.din.size ∧
      pos < endpos ∧ endpos ≤ maxFileSize ∧ (io = .read → endpos ≤ sin.din.size) ∧
      ((io ≠ .read ∧ sin.din.blocks < pos / blkSize ∧ sfsIoNolock w fs sin io offset len = .error .loadIndex) ∨
      (pos / blkSize ≤ sin.din.blocks ∧ ∃ fs' sin' r, sfsIoNolock w fs sin io offset len = .ok (fs', sin', r) ∧
        Ran io pos endpos fs sin fs' sin' r)) := by
  rw [sfsIoNolock, if_neg h.type]
  by_cases hrange : offset < 0 ∨ offset ≥ maxFileSize ∨ offset > w.offT (offset + len)
  · rw [if_pos hrange]
    exact .inl ⟨some .inval, rfl, rfl, hrange⟩
  · rw [if_neg hrange]
    by_cases hempty : offset = w.offT (offset + len)
    · rw [if_pos hempty]
      exact .inl ⟨none, rfl, by omega, by omega, .inl hempty⟩
    · rw [if_neg hempty]
      have hle := w.offT_le (show 0 ≤ offset + len by omega)
      cases io with
      | write buf =>
        have hlen : len ≤ buf.length := hbuf
        refine .inr ⟨offset.toNat, _, by omega, rfl, ?_, ?_, nofun, ?_⟩
        · rw [Io.stop]
          omega
        · rw [Io.stop]
          omega
        · by_cases hindex : offset.toNat / blkSize ≤ sin.din.blocks
          · refine .inr ⟨hindex, ioRange_spec h hindex (by omega) (by omega) ?_⟩
            change _ ≤ buf.length
            omega
          · grind [ioRange_beyond]
      | read =>
        dsimp only
        by_cases hpast : offset ≥ sin.din.size
        · rw [if_pos hpast]
          exact .inl ⟨none, rfl, by omega, by omega, .inr ⟨by omega, rfl, hpast⟩⟩
        · rw [if_neg hpast]
          -- the size is within the block after the last one, and so is the position
          have hindex : offset.toNat / blkSize ≤ sin.din.blocks := by
            have hsize := h.size
            grind [blkSize]
          refine .inr ⟨offset.toNat, _, by omega, rfl, ?_, ?_, fun _ => ?_, .inr ⟨hindex,
            ioRange_spec h hindex (by omega) (by omega) trivial⟩⟩
          · rw [Io.stop]
            omega
          · rw [Io.stop]
            omega
          · rw [Io.stop]
            omega

/-! ### Growing and shrinking -/

/-- The loop that appends blocks. -/
lemma growLoop_spec (left : ℕ) (h : FileOk fs sin)
    (hpos : ∀ i < sin.din.blocks + left, ∃ p, Pos.ofIndex i = some p) :
    ∃ fs' sin' ok, growLoop left fs sin sin.din.blocks = .ok (fs', sin', ok) ∧ FileOk fs' sin' ∧
      Remapped fs sin fs' sin' ∧ content fs' sin'.din = content fs sin.din ∧
      sin.din.blocks ≤ sin'.din.blocks ∧ ((ok = true ∧ sin'.din.blocks = sin.din.blocks + left) ∨
        (ok = false ∧ sin'.din.blocks < sin.din.blocks + left)) := by
  induction left generalizing fs sin with
  | zero =>
    exact ⟨fs, sin, true, rfl, h, Remapped.refl h.toMapped, rfl, le_rfl, .inl ⟨rfl, rfl⟩⟩
  | succ left ih =>
    obtain ⟨p, hp⟩ := hpos sin.din.blocks (by omega)
    obtain ⟨fs1, sin1, h1, hremapped, hcontent, hresult⟩ := h.load le_rfl hp
    rw [growLoop]
    obtain ⟨hload, -, hblocks⟩ | ⟨hload, -, hblocks⟩ := hresult
    · rw [hload, ok_bind]
      exact ⟨fs1, sin1, false, rfl, h1, hremapped, hcontent, by omega, .inr ⟨rfl, by omega⟩⟩
    · have hblocks : sin1.din.blocks = sin.din.blocks + 1 := by omega
      obtain ⟨fs', sin', ok, hloop, h', hremapped', hcontent', hle, hcount⟩ :=
        ih h1 fun i hi => hpos i (by omega)
      rw [hload, ok_bind]
      rw [← hblocks]
      refine ⟨fs', sin', ok, hloop, h', hremapped.trans hremapped', hcontent'.trans hcontent, by omega, ?_⟩
      obtain ⟨rfl, hcount⟩ | ⟨rfl, hcount⟩ := hcount
      · exact .inl ⟨rfl, by omega⟩
      · exact .inr ⟨rfl, by omega⟩

/-- A block that is given back no longer belongs to the content. -/
lemma content_frees (h : Frees fs din fs' din' p) (hpos : Pos.ofIndex index = some p) (k : ℕ) :
    content fs' din' k = if k / blkSize = index then 0 else content fs din k := by
  unfold content
  rw [h.ptrs_eq (Pos.leaf_of_ofIndex hpos)]
  by_cases hk : k / blkSize = index
  · rw [hk, hpos, if_pos rfl]
    simp
  · rw [if_neg hk]
    cases hq : Pos.ofIndex (k / blkSize) with
    | none => rfl
    | some q =>
      have hne : q ≠ p := by
        rintro rfl
        exact hk (Pos.ofIndex_inj hq hpos)
      dsimp only
      rw [Function.update_of_ne hne]
      split_ifs with hzero
      · rfl
      · rw [h.data q (Pos.leaf_of_ofIndex hq) hzero]

/-- The loop that gives blocks back, from the last one on. -/
lemma shrinkLoop_spec (left : ℕ) (h : Mapped fs sin) (hleft : left ≤ sin.din.blocks) :
    ∃ fs' sin', shrinkLoop left fs sin = .ok (fs', sin') ∧ Mapped fs' sin' ∧
      Remapped fs sin fs' sin' ∧ sin'.din.blocks = sin.din.blocks - left ∧
      ∀ k, content fs' sin'.din k = if sin'.din.blocks ≤ k / blkSize ∧ k / blkSize < sin.din.blocks
        then 0 else content fs sin.din k := by
  induction left generalizing fs sin with
  | zero =>
    refine ⟨fs, sin, rfl, h, Remapped.refl h, rfl, fun k => ?_⟩
    rw [if_neg (by omega)]
  | succ left ih =>
    have hne : sin.din.blocks ≠ 0 := by omega
    obtain ⟨p, hp, -⟩ := h.mapped (sin.din.blocks - 1) (by omega)
    obtain ⟨fs1, din1, hfrees, htrunc⟩ := bmapTruncate_spec h.ok h.held hne hp
    set din2 : Din := { din1 with blocks := sin.din.blocks - 1 } with hdin2
    have hptrs : ptrs fs1 din2 = ptrs fs1 din1 := ptrs_congr rfl rfl rfl
    have hkept := hfrees.toKept.of_ptrs hptrs
    have h1 : Mapped fs1 ⟨din2, true⟩ := by
      refine ⟨hkept.ok, hkept.held, fun i hi => ?_⟩
      have hi : i < sin.din.blocks - 1 := hi
      obtain ⟨q, hq, hqne⟩ := h.mapped i (by omega)
      have hqp : q ≠ p := by grind [Pos.ofIndex_inj]
      refine ⟨q, hq, ?_⟩
      rw [hptrs, hfrees.ptrs_eq (Pos.leaf_of_ofIndex hp), Function.update_of_ne hqp]
      exact hqne
    have hremapped : Remapped fs sin fs1 ⟨din2, true⟩ := by
      refine ⟨⟨hkept, ?_, nofun⟩, ?_⟩
      · change din2 = _
        rw [hdin2, hfrees.same]
      · change din1.size = _
        rw [hfrees.same]
    obtain ⟨fs', sin', hloop, h', hremapped', hblocks, hcontent⟩ :=
      ih h1 (show left ≤ sin.din.blocks - 1 by omega)
    have hone : din2.blocks = sin.din.blocks - 1 := rfl
    dsimp only at hblocks hcontent
    rw [shrinkLoop, htrunc, ok_bind]
    refine ⟨fs', sin', hloop, h', hremapped.trans hremapped', by omega, fun k => ?_⟩
    rw [hcontent, content_congr hptrs, content_frees hfrees hp]
    -- the block that went first is the last one of the range
    split_ifs <;> first | rfl | omega

/-! ### `sfs_truncfile` -/

/-- What `sfs_truncfile` leaves behind: the new size, or, if the disk is full, the blocks that it has
got. -/
structure Truncated (len : ℕ) (fs : Fs) (sin : Sin) (fs' : Fs) (sin' : Sin) (err : Option Errno) :
    Prop where
  ok : FileOk fs' sin'
  resized : Resized fs sin fs' sin'
  ended : (err = none ∧ sin'.din.size = len ∧ sin'.din.blocks = ceilBlocks len ∧
      ∀ k, content fs' sin'.din k = if ceilBlocks len ≤ k / blkSize ∧ k / blkSize < sin.din.blocks
        then 0 else content fs sin.din k) ∨
    (err = some .noMem ∧ sin'.din.size = sin.din.size ∧ sin.din.blocks ≤ sin'.din.blocks ∧
      sin'.din.blocks < ceilBlocks len ∧ content fs' sin'.din = content fs sin.din)

/-- The end of `sfs_truncfile`, once the number of blocks is the one for the new size. -/
lemma truncOut_spec (len : ℕ) (h : Mapped fs sin) (htype : sin.din.type ≠ .dir)
    (hblocks : sin.din.blocks = ceilBlocks len) :
    ∃ sin', truncOut fs sin len (ceilBlocks len) = .ok (fs, sin', none) ∧ FileOk fs sin' ∧
      Resized fs sin fs sin' ∧ sin'.din.size = len ∧ sin'.din.blocks = ceilBlocks len ∧
      content fs sin'.din = content fs sin.din := by
  have hptrs : ptrs fs { sin.din with size := len } = ptrs fs sin.din := ptrs_congr rfl rfl rfl
  have hheld : Held fs { sin.din with size := len } := by
    rw [Held, hptrs]
    exact h.held
  refine ⟨⟨{ sin.din with size := len }, true⟩, ?_, ⟨⟨h.ok, hheld, ?_⟩, htype, ?_⟩,
    ⟨⟨h.ok, hheld, rfl, ?_, fun b hb _ => ⟨hb, rfl⟩⟩, rfl, by simp⟩, rfl, hblocks, content_congr hptrs⟩
  · rw [truncOut, if_neg (not_not.mpr hblocks)]
  · rw [hptrs]
    exact h.mapped
  · change len ≤ (sin.din.blocks + 1) * blkSize
    refine (le_ceilBlocks_mul len).trans (Nat.mul_le_mul_right _ ?_)
    omega
  · intro p _
    rw [hptrs]
    exact .inl ⟨p, rfl⟩

/-- `sfs_truncfile` with a length that a file can have. -/
lemma sfsTruncfile_spec (len : ℕ) (h : FileOk fs sin) (hlen : len ≤ maxFileSize) :
    (sin.din.size = len ∧ ceilBlocks len ≠ sin.din.blocks ∧ sfsTruncfile fs sin len = .error .truncfileBlocks) ∨
    ∃ fs' sin' err, sfsTruncfile fs sin len = .ok (fs', sin', err) ∧ Truncated len fs sin fs' sin' err := by
  rw [sfsTruncfile, if_neg (by omega), if_neg h.type]
  dsimp only
  rw [Int.toNat_natCast, show (len + blkSize - 1) / blkSize = ceilBlocks len from rfl]
  by_cases hsame : sin.din.size = len
  · rw [if_pos hsame]
    by_cases hblocks : ceilBlocks len = sin.din.blocks
    · refine .inr ⟨fs, sin, none, by rw [if_neg (not_not.mpr hblocks)], h, Resized.refl h.toMapped,
        .inl ⟨rfl, hsame, hblocks.symm, fun k => ?_⟩⟩
      rw [if_neg (by omega)]
    · grind
  · rw [if_neg hsame]
    refine .inr ?_
    split_ifs with hgrow
    · obtain ⟨fs1, sin1, ok, hloop, h1, hremapped, hcontent, hle, hcount⟩ :=
        growLoop_spec (ceilBlocks len - sin.din.blocks) h fun i hi =>
          exists_ofIndex_of_lt (by unfold ceilBlocks blkSize maxFileSize at *; omega)
      rw [hloop, ok_bind]
      obtain ⟨rfl, hcount⟩ | ⟨rfl, hcount⟩ := hcount
      · obtain ⟨sin', hout, h', hresized, hsize, hblocks, hcontent'⟩ :=
          truncOut_spec len h1.toMapped h1.type (by omega)
        refine ⟨fs1, sin', none, hout, h', hremapped.toResized.trans hresized, .inl ⟨rfl, hsize, hblocks, fun k => ?_⟩⟩
        rw [hcontent', hcontent, if_neg (by omega)]
      · exact ⟨fs1, sin1, some .noMem, rfl, h1, hremapped.toResized,
          .inr ⟨rfl, hremapped.size, hle, by omega, hcontent⟩⟩
    · obtain ⟨fs1, sin1, hloop, h1, hremapped, hblocks, hcontent⟩ :=
        shrinkLoop_spec (sin.din.blocks - ceilBlocks len) h.toMapped (by omega)
      obtain ⟨sin', hout, h', hresized, hsize, hblocks', hcontent'⟩ :=
        truncOut_spec len h1 (by rw [hremapped.type]; exact h.type) (by omega)
      rw [hloop, ok_bind]
      refine ⟨fs1, sin', none, hout, h', hremapped.toResized.trans hresized, .inl ⟨rfl, hsize, hblocks', fun k => ?_⟩⟩
      have hceil : sin1.din.blocks = ceilBlocks len := by omega
      rw [hcontent', hcontent, hceil]

/-- What a change of the size leaves of the file. -/
def Remains (fs : Fs) (sin : Sin) (r : Fs × Sin × Option Errno) : Prop :=
  FileOk r.1 r.2.1 ∧ Resized fs sin r.1 r.2.1 ∧ (r.2.1.din.size = sin.din.size ∨ r.2.1.din.size ≤ maxFileSize)

lemma sfsTruncfile_ensures (h : FileOk fs sin) (len : ℤ) :
    Except.Ensures (· = .truncfileBlocks) (sfsTruncfile fs sin len) (Remains fs sin) := by
  by_cases hrange : len < 0 ∨ len > maxFileSize
  · rw [sfsTruncfile, if_pos hrange]
    exact ⟨h, Resized.refl h.toMapped, .inl rfl⟩
  · lift len to ℕ using by omega
    obtain ⟨-, -, htrunc⟩ | ⟨fs', sin', err, htrunc, hdone⟩ := sfsTruncfile_spec len h (by omega)
    · rw [htrunc]
      rfl
    · rw [htrunc]
      exact ⟨hdone.ok, hdone.resized, hdone.ended.symm.imp (·.2.1) fun hend => hend.2.1.trans_le (by omega)⟩

lemma sfsTryseek_ensures (h : FileOk fs sin) (pos : ℤ) :
    Except.Ensures (· = .truncfileBlocks) (sfsTryseek fs sin pos) (Remains fs sin) := by
  rw [sfsTryseek]
  split_ifs
  · exact ⟨h, Resized.refl h.toMapped, .inl rfl⟩
  · exact sfsTruncfile_ensures h pos
  · exact ⟨h, Resized.refl h.toMapped, .inl rfl⟩

end UcoreKernel.Sfs
