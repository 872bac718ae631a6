import UcoreKernel.Lib.Guarded
import UcoreKernel.Fs.Sfs.FileSpec

/-!
The size of a file and the number of its blocks.

`sfs_truncfile` asserts that the number of blocks is the size divided by the size of a block, rounded
up. A write that gets no block at all has its position recorded as the size nevertheless, and a growth
that runs out of space keeps the blocks it has got, without a new size.
-/

namespace UcoreKernel.Sfs

open ByteBlock Guarded

namespace FileState

/-- The number of blocks is the size divided by the size of a block, rounded up. -/
def Sized (s : FileState) : Prop := s.sin.din.blocks = ceilBlocks s.sin.din.size

/-- An operation that runs out of space leaves no part of a block behind: a write that has stored
nothing began at the boundary of a block, and a growth has got no block. -/
def Whole (w : Width) (s : FileState) (op : FileOp) : Prop :=
  match s.exec w op with
  | .ok (s', r) => r.err = some .noMem →
      match op with
      | .read _ _ => True
      | .write offset _ => r.alen = 0 → (blkSize : ℤ) ∣ offset
      | .seek _ | .truncate _ => s'.sin.din.blocks = s.sin.din.blocks
  | .error _ => True

end FileState

/-- A file whose number of blocks is the one for its size. -/
structure SizedFile extends FileState where
  ok : FileOk fs sin
  sized : toFileState.Sized

namespace FileState

variable {fs fs' : Fs} {sin sin' : Sin} {s s' : FileState} {w : Width}

/-! ### The single operation -/

variable {r : IoResult}

/-- A transfer keeps the equation, unless it is a write that has stored nothing in a block it could not
get. -/
lemma sized_of_ran {io : Io} {pos endpos : ℕ}
    (hsized : (⟨fs, sin⟩ : FileState).Sized) (hran : Ran io pos endpos fs sin fs' sin' r)
    (hread : io = .read → endpos ≤ sin.din.size) : (⟨fs', sin'⟩ : FileState).Sized ↔
      (io ≠ .read → r.err = some .noMem → r.alen = 0 → blkSize ∣ pos) := by
  have hsized : sin.din.blocks = ceilBlocks sin.din.size := hsized
  have hsize := hran.size
  have hle := le_ceilBlocks_mul sin.din.size
  rw [← hsized] at hle
  change sin'.din.blocks = ceilBlocks sin'.din.size ↔ _
  rw [hsize]
  obtain ⟨hok, hn, hblocks⟩ | ⟨hmem, hn, hblocks, ⟨h0, hdiv, hsame⟩ | ⟨hpos, hn'⟩⟩ := hran.ended
  · grind [ceilBlocks_max]
  · -- nothing was stored, and the position is in the block after the last one
    have hmod := Nat.div_add_mod pos blkSize
    rw [hdiv, mul_comm] at hmod
    have hnotread : io ≠ .read := fun hio => by
      have := hread hio
      omega
    rw [h0, add_zero, max_eq_right (by omega), hsame]
    simp only [hnotread, hmem, ne_eq, not_false_eq_true, forall_const]
    by_cases halign : pos % blkSize = 0
    · have hpos : pos = sin.din.blocks * blkSize := by omega
      refine iff_of_true ?_ (Nat.dvd_of_mod_eq_zero halign)
      rw [hpos, ceilBlocks_mul]
    · grind [Nat.mod_eq_zero_of_dvd, ceilBlocks_of_mod]
  · grind [blkSize, ceilBlocks_mul]

variable {len : ℕ}

/-- A change of the size keeps the equation, unless it has got blocks in vain. -/
lemma sized_of_truncated {err : Option Errno} (hsized : (⟨fs, sin⟩ : FileState).Sized)
    (h : Truncated len fs sin fs' sin' err) :
    (⟨fs', sin'⟩ : FileState).Sized ↔ (err = some .noMem → sin'.din.blocks = sin.din.blocks) := by
  have hsized : sin.din.blocks = ceilBlocks sin.din.size := hsized
  change sin'.din.blocks = ceilBlocks sin'.din.size ↔ _
  obtain ⟨herr, hsize, hblocks, -⟩ | ⟨herr, hsize, -, -, -⟩ := h.ended
  · grind
  · rw [hsize, ← hsized]
    simp [herr]

/-- What an operation does to a file that fulfils the equation. -/
def StepSpec (w : Width) (s : FileState) (op : FileOp) : Prop :=
  match s.exec w op with
  | .ok (s', _) => FileOk s'.fs s'.sin ∧ (s'.Sized ↔ s.Whole w op)
  | .error p => p = .loadIndex

variable {op : FileOp}

lemma stepSpec_of_ok (hexec : s.exec w op = .ok (s', r))
    (hok : FileOk s'.fs s'.sin) (hsized : s'.Sized ↔ s.Whole w op) : StepSpec w s op := by
  rw [StepSpec, hexec]
  exact ⟨hok, hsized⟩

/-- A transfer. -/
lemma stepSpec_io (io : Io) {offset : ℤ} (hok : FileOk s.fs s.sin)
    (hsized : s.Sized) (hbuf : io.Provides len) (hexec : s.exec w op = do
      let (fs, sin, r) ← sfsIoNolock w s.fs s.sin io offset len
      return (⟨fs, sin⟩, r)) (hwhole : ∀ s' r, s.exec w op = .ok (s', r) → (s.Whole w op ↔
      (io ≠ .read → r.err = some .noMem → r.alen = 0 → (blkSize : ℤ) ∣ offset))) : StepSpec w s op := by
  rcases sfsIoNolock_spec w offset hok hbuf with ⟨err, hio, hidle⟩ |
    ⟨pos, endpos, rfl, -, hlt, -, hread, ⟨-, -, hio⟩ | ⟨-, fs', sin', r, hio, hran⟩⟩
  · rw [hio] at hexec
    refine stepSpec_of_ok hexec hok (iff_of_true hsized ((hwhole _ _ hexec).mpr ?_))
    rintro - rfl
    cases hidle.1
  · rw [StepSpec, hexec, hio]
    rfl
  · rw [hio] at hexec
    refine stepSpec_of_ok hexec hran.ok ?_
    rw [hwhole _ _ hexec, Int.natCast_dvd_natCast]
    exact sized_of_ran hsized hran hread

/-- A change of the size; `sfs_tryseek` makes it only to get beyond the old one. -/
lemma stepSpec_truncate (len : ℤ) (hok : FileOk s.fs s.sin) (hsized : s.Sized) (hexec : s.exec w op = do
      let (fs, sin, err) ← sfsTruncfile s.fs s.sin len
      return (⟨fs, sin⟩, ⟨0, [], err⟩)) (hwhole : ∀ s' r, s.exec w op = .ok (s', r) → (s.Whole w op ↔
      (r.err = some .noMem → s'.sin.din.blocks = s.sin.din.blocks))) : StepSpec w s op := by
  by_cases hrange : len < 0 ∨ len > maxFileSize
  · rw [sfsTruncfile, if_pos hrange] at hexec
    exact stepSpec_of_ok hexec hok (iff_of_true hsized ((hwhole _ _ hexec).mpr (by simp)))
  · lift len to ℕ using by omega
    rcases sfsTruncfile_spec len hok (by omega) with
      ⟨hsize, hne, -⟩ | ⟨fs', sin', err, htrunc, htruncated⟩
    · rw [← hsize] at hne
      exact absurd hsized.symm hne
    · rw [htrunc] at hexec
      refine stepSpec_of_ok hexec htruncated.ok ?_
      rw [hwhole _ _ hexec]
      exact sized_of_truncated hsized htruncated

/-- Every operation keeps the equation or not, as its condition says. -/
lemma stepSpec (hok : FileOk s.fs s.sin) (hsized : s.Sized) (op : FileOp) : StepSpec w s op := by
  cases op with
  | read offset len =>
    refine stepSpec_io .read hok hsized trivial rfl fun s' r hexec => ?_
    rw [Whole, hexec]
    simp
  | write offset buf =>
    refine stepSpec_io (.write buf) hok hsized (le_refl buf.length) rfl fun s' r hexec => ?_
    rw [Whole, hexec]
    simp
  | truncate len =>
    refine stepSpec_truncate len hok hsized rfl fun s' r hexec => ?_
    rw [Whole, hexec]
  | seek pos =>
    have hwhole : ∀ s' r, s.exec w (.seek pos) = .ok (s', r) → (s.Whole w (.seek pos) ↔
        (r.err = some .noMem → s'.sin.din.blocks = s.sin.din.blocks)) := by
      intro s' r hexec
      rw [Whole, hexec]
    by_cases hrange : pos < 0 ∨ pos ≥ maxFileSize
    · have hexec : s.exec w (.seek pos) = .ok (s, ⟨0, [], some .inval⟩) := by
        rw [exec, sfsTryseek, if_pos hrange]
        rfl
      grind [stepSpec_of_ok]
    · by_cases hbeyond : pos > s.sin.din.size
      · refine stepSpec_truncate pos hok hsized ?_ hwhole
        rw [exec, sfsTryseek, if_neg hrange, if_pos hbeyond]
      · have hexec : s.exec w (.seek pos) = .ok (s, ⟨0, [], none⟩) := by
          rw [exec, sfsTryseek, if_neg hrange, if_neg hbeyond]
          rfl
        grind [stepSpec_of_ok]

end FileState

/-! ### Runs -/

/-- Without a free block, no direct block is appended. -/
lemma bmapLoad_full {fs : Fs} {sin : Sin} (hok : FsOk fs) (hfull : fs.unusedBlocks = 0)
    (h : sin.din.blocks < ndirect) (hp : sin.din.direct ⟨sin.din.blocks, h⟩ = 0) :
    bmapLoad fs sin sin.din.blocks = .ok (fs, sin, none) := by
  have halloc : fs.blockAlloc = .ok (fs, none) := by grind [blockAlloc_spec]
  rw [bmapLoad, if_neg (lt_irrefl _)]
  simp [bmapGet, h, bmapGetDirect, hp, halloc]

/-- A volume of five blocks, the last of which is free. -/
def fullVolume : Fs where
  blocks := 5
  unusedBlocks := 1
  superDirty := false
  free b := b == 4
  disk _ := zero

lemma fullVolume_ok : FsOk fullVolume := by
  refine ⟨by decide, ?_, ?_⟩
  · intro b hb
    obtain rfl := beq_iff_eq.mp hb
    decide
  · have hfree : (Finset.range fullVolume.freemapBits).filter (fullVolume.free ·) = {4} := by
      ext b
      have hbits : fullVolume.freemapBits = 32768 := rfl
      have hb : fullVolume.free b = true ↔ b = 4 := beq_iff_eq
      grind
    rw [Fs.freeBits, hfree]
    rfl

/-- An inode without blocks. -/
def emptySin : Sin := ⟨⟨0, 0, .file, 1, 0, fun _ => 0, 0, 0⟩, false⟩

/-- An inode without blocks owns none. -/
lemma ptrs_emptySin (fs : Fs) (p : Pos) : ptrs fs emptySin.din p = 0 := by
  cases p <;> simp [ptrs, Fs.sub, emptySin]

/-- It is a file on every volume. -/
lemma emptySin_ok {fs : Fs} (h : FsOk fs) : FileOk fs emptySin := by
  refine ⟨⟨h, ⟨?_, ?_⟩, nofun⟩, nofun, by decide⟩
  · intro p hp
    exact absurd (ptrs_emptySin fs p) hp
  · intro p q hp
    exact absurd (ptrs_emptySin fs p) hp

/-- An empty file on that volume. -/
def fullFile : SizedFile where
  fs := fullVolume
  sin := emptySin
  ok := emptySin_ok fullVolume_ok
  sized := rfl

/-- The file with the one block that it can get. -/
def grownSin : Sin :=
  ⟨{ emptySin.din with blocks := 1, direct := Function.update (fun _ => 0) ⟨0, by decide⟩ 4 }, true⟩

/-- The loop of `sfs_truncfile` gets one block, and no second one. -/
lemma growLoop_fullVolume : growLoop 2 fullVolume emptySin 0 = .ok (fullVolume.take 4, grownSin, false) := by
  have hfirst : bmapLoad fullVolume emptySin 0 = .ok (fullVolume.take 4, grownSin, some 4) := rfl
  have hsecond : bmapLoad (fullVolume.take 4) grownSin 1 = .ok (fullVolume.take 4, grownSin, none) :=
    bmapLoad_full (fullVolume_ok.take rfl) rfl (by decide) rfl
  rw [growLoop, hfirst, ok_bind]
  dsimp only
  rw [growLoop, hsecond]
  rfl

end UcoreKernel.Sfs
