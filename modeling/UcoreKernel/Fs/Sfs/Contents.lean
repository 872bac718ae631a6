import UcoreKernel.Fs.Sfs.FileSize
import UcoreKernel.Lib.Simulation

/-!
A file as an array of bytes.

Behind the end of a file there are only zeros, as long as it is truncated to nothing at all or not below its
size, and written at its end or before. Then nothing else of the blocks can be seen.
-/

namespace UcoreKernel.Sfs

open ByteBlock Simulation

/-- A file as its users see it: its bytes, and nothing behind them. -/
@[ext] structure Bytes where
  data : Block
  size : ℕ
  ended : ∀ k, size ≤ k → data k = 0

/-- How far a transfer of `len` bytes comes: to the end of its range, as far as the disk has space, or
nowhere, if the range is not one of a file. -/
def Io.Comes (w : Width) (io : Io) (size : ℕ) (offset : ℤ) (len : ℕ) (r : IoResult) : Prop :=
  (r.err = none ∧ r.alen = io.stop (w.offT (offset + len)) size - offset.toNat) ∨
    (r.err = some .noMem ∧ offset.toNat + r.alen < io.stop (w.offT (offset + len)) size) ∨
    (r.err = some .inval ∧ r.alen = 0 ∧ (offset < 0 ∨ offset ≥ maxFileSize ∨ offset > w.offT (offset + len)))

/-- What an operation does to the array, with what it returns. -/
def Bytes.Does (w : Width) (a : Bytes) (op : FileOp) (r : IoResult) (a' : Bytes) : Prop :=
  match op with
  | .read offset len => Io.Comes w .read a.size offset len r ∧ r.out = read a.data offset.toNat r.alen ∧ a' = a
  | .write offset buf => Io.Comes w (.write buf) a.size offset buf.length r ∧
      a'.data = write a.data offset.toNat (buf.take r.alen) ∧ a'.size = max a.size (offset.toNat + r.alen)
  | .seek pos => (r.err = none ∧ a'.data = a.data ∧ (a'.size : ℤ) = max (a.size : ℤ) pos) ∨ (r.err ≠ none ∧ a' = a)
  | .truncate len => (r.err = none ∧ (a'.size : ℤ) = len ∧
      ∀ k : ℕ, a'.data k = if (k : ℤ) < len then a.data k else 0) ∨ (r.err ≠ none ∧ a' = a)

/-- A write begins at the end of the file or before it, and a truncation leaves nothing or takes nothing
away. -/
def FileOp.Tame (size : ℕ) : FileOp → Prop
  | .write offset _ => offset ≤ size
  | .truncate len => len = 0 ∨ (size : ℤ) ≤ len
  | _ => True

/-- The blocks of a file have the bytes of an array, and the bytes that have no block are zero. -/
structure Holds (s : FileState) (a : Bytes) : Prop where
  ok : FileOk s.fs s.sin
  size : s.sin.din.size = a.size
  data : content s.fs s.sin.din = a.data
  tail : ∀ k, s.sin.din.blocks ≤ k / blkSize → a.data k = 0

/-- A call on a file that returns. -/
def FileState.Calls (w : Width) (s : FileState) (op : FileOp) (r : IoResult) (s' : FileState) : Prop :=
  s.exec w op = .ok (s', r) ∧ op.Tame s.sin.din.size

variable {w : Width} {fs fs' : Fs} {sin sin' : Sin} {a : Bytes} {r : IoResult} {offset : ℤ} {len : ℕ}

/-- A transfer changes no byte behind its end. -/
lemma Io.stored_of_ge {io : Io} {c : Block} {pos n k : ℕ} (h : n = 0 ∨ pos + n ≤ k) : io.stored c pos 0 n k = c k := by
  cases io with
  | read => rfl
  | write buf =>
    refine if_neg ?_
    rw [List.length_take]
    omega

/-- A transfer that moves nothing. -/
lemma Io.Idle.comes {io : Io} {size : ℕ} {err : Option Errno} (h : io.Idle (w.offT (offset + len)) size offset err) :
    io.Comes w size offset len ⟨0, [], err⟩ := by
  cases err with
  | none =>
    obtain ⟨hpos, hmax, hidle⟩ := h
    refine .inl ⟨rfl, ?_⟩
    cases io with
    | read =>
      rw [Io.stop]
      dsimp only
      omega
    | write buf =>
      rw [Io.stop]
      dsimp only
      simp only [reduceCtorEq, false_and, and_false, or_false] at hidle
      omega
  | some err => exact .inr (.inr ⟨congrArg some h.1, rfl, h.2⟩)

/-- What has been stored is in blocks that are counted. -/
lemma Ran.covered {io : Io} {pos endpos : ℕ} (h : Ran io pos endpos fs sin fs' sin' r) :
    sin.din.blocks ≤ sin'.din.blocks ∧ (r.alen = 0 ∨ pos + r.alen ≤ sin'.din.blocks * blkSize) := by
  obtain ⟨-, hn, hblocks⟩ | ⟨-, -, hle, ⟨h0, -⟩ | ⟨-, hn⟩⟩ := h.ended
  · have hceil := le_ceilBlocks_mul endpos
    have hmul := Nat.mul_le_mul_right blkSize (show ceilBlocks endpos ≤ sin'.din.blocks by omega)
    exact ⟨by omega, .inr (by omega)⟩
  · exact ⟨hle, .inl h0⟩
  · exact ⟨hle, .inr hn.le⟩

/-- A transfer is one on the array. -/
lemma Holds.transfer (io : Io) (h : Holds ⟨fs, sin⟩ a) (hbuf : io.Provides len) (hoff : io ≠ .read → offset ≤ a.size)
    (hrun : sfsIoNolock w fs sin io offset len = .ok (fs', sin', r)) : io.Comes w a.size offset len r ∧
      r.out = io.output a.data offset.toNat r.alen ∧ ∃ a', Holds ⟨fs', sin'⟩ a' ∧
        a'.data = io.stored a.data offset.toNat 0 r.alen ∧
        a'.size = if r.alen = 0 then a.size else max a.size (offset.toNat + r.alen) := by
  obtain ⟨hok, hsize, hdata, htail⟩ := h
  dsimp only at hok hsize hdata htail
  obtain ⟨err, hio, hidle⟩ | ⟨pos, endpos, rfl, hstop, hlt, -, hread, ⟨-, -, hio⟩ | ⟨-, fs₁, sin₁, r₁, hio, hran⟩⟩ :=
    sfsIoNolock_spec w offset hok hbuf
  · rw [hio] at hrun
    cases hrun
    refine ⟨?_, (Io.output_zero _ _ _).symm, a, ⟨hok, hsize, hdata, htail⟩, ?_, (if_pos rfl).symm⟩
    · exact (hsize ▸ hidle).comes
    · exact funext fun k => (Io.stored_of_ge (.inl rfl)).symm
  · rw [hio] at hrun
    cases hrun
  · rw [hio] at hrun
    cases hrun
    rw [Int.toNat_natCast]
    have hcomes : io.Comes w a.size pos len r := by
      rw [hsize] at hstop
      rw [Io.Comes, ← hstop, Int.toNat_natCast]
      obtain ⟨herr, hn, -⟩ | ⟨herr, hn, -⟩ := hran.ended
      · exact .inl ⟨herr, by omega⟩
      · exact .inr (.inl ⟨herr, hn⟩)
    have hpos : pos ≤ a.size := by
      by_cases hio' : io = .read
      · have := hread hio'
        omega
      · exact_mod_cast hoff hio'
    have hblocks := hran.covered
    refine ⟨hcomes, hdata ▸ hran.out, ⟨io.stored a.data pos 0 r.alen, max a.size (pos + r.alen), fun k hk => ?_⟩,
      ⟨hran.ok, hran.size.trans (by rw [hsize]), hdata ▸ hran.content, fun k hk => ?_⟩, rfl, ?_⟩
    · rw [Io.stored_of_ge (by omega)]
      exact a.ended k (by omega)
    · have hle : sin'.din.blocks * blkSize ≤ k := (Nat.le_div_iff_mul_le (by decide)).mp hk
      exact (Io.stored_of_ge (by omega)).trans (htail k (hblocks.1.trans hk))
    · split_ifs with h0
      · exact max_eq_left (by omega)
      · rfl

/-- So is a change of the size. -/
lemma Holds.truncate (h : Holds ⟨fs, sin⟩ a) {len : ℤ} (htame : len = 0 ∨ (a.size : ℤ) ≤ len) {err : Option Errno}
    (hrun : sfsTruncfile fs sin len = .ok (fs', sin', err)) : ∃ a', Holds ⟨fs', sin'⟩ a' ∧
      ((err = none ∧ (a'.size : ℤ) = len ∧ ∀ k : ℕ, a'.data k = if (k : ℤ) < len then a.data k else 0) ∨
        (err ≠ none ∧ a' = a)) := by
  by_cases hrange : len < 0 ∨ len > maxFileSize
  · rw [sfsTruncfile, if_pos hrange] at hrun
    cases hrun
    exact ⟨a, h, .inr ⟨by simp, rfl⟩⟩
  lift len to ℕ using by omega
  obtain ⟨hok, hsize, hdata, htail⟩ := h
  dsimp only at hok hsize hdata htail
  obtain ⟨-, -, htrunc⟩ | ⟨fs₁, sin₁, err₁, htrunc, hdone⟩ := sfsTruncfile_spec len hok (by omega)
  · rw [htrunc] at hrun
    cases hrun
  rw [htrunc] at hrun
  cases hrun
  obtain ⟨herr, hlen, hblocks, hcontent⟩ | ⟨herr, hsame, hle, -, hcontent⟩ := hdone.ended
  · refine ⟨⟨fun k => if k < len then a.data k else 0, len, fun k hk => if_neg (by omega)⟩,
      ⟨hdone.ok, hlen, funext fun k => ?_, fun k hk => ?_⟩, .inl ⟨herr, rfl, fun k => by simp⟩⟩
    · rw [hcontent k, hdata]
      have hk : ceilBlocks len ≤ k / blkSize → len ≤ k := fun hk =>
        (le_ceilBlocks_mul len).trans ((Nat.le_div_iff_mul_le (by decide)).mp hk)
      have hzero : len = 0 → ceilBlocks len = 0 := fun h0 => by
        rw [h0]
        rfl
      have hend := a.ended k
      have htail := htail k
      split_ifs <;> grind
    · have hk : ceilBlocks len ≤ k / blkSize := hblocks ▸ hk
      exact if_neg (not_lt.mpr ((le_ceilBlocks_mul len).trans ((Nat.le_div_iff_mul_le (by decide)).mp hk)))
  · exact ⟨a, ⟨hdone.ok, hsame.trans hsize, hcontent.trans hdata, fun k hk => htail k (hle.trans hk)⟩,
      .inr ⟨by simp [herr], rfl⟩⟩

/-- Each call on a file is one on the array. -/
lemma Holds.does {s s' : FileState} {op : FileOp} (h : Holds s a) (hcall : s.Calls w op r s') :
    ∃ a', a.Does w op r a' ∧ Holds s' a' := by
  obtain ⟨hexec, htame⟩ := hcall
  rw [h.size] at htame
  cases op with
  | read offset len =>
    obtain ⟨⟨fs', sin', r'⟩, hio, hr⟩ := bind_eq_ok_iff.mp hexec
    cases hr
    obtain ⟨hcomes, hout, a', hholds, hdata, hsize⟩ := h.transfer .read trivial (absurd rfl) hio
    obtain rfl : a' = a := by
      refine Bytes.ext hdata (hsize.trans ?_)
      have hstop : Io.stop .read (w.offT (offset + len)) a.size ≤ a.size := by
        rw [Io.stop]
        omega
      rw [Io.Comes] at hcomes
      split_ifs <;> omega
    exact ⟨a', ⟨hcomes, hout, rfl⟩, hholds⟩
  | write offset buf =>
    obtain ⟨⟨fs', sin', r'⟩, hio, hr⟩ := bind_eq_ok_iff.mp hexec
    cases hr
    have hoff : offset ≤ a.size := htame
    obtain ⟨hcomes, -, a', hholds, hdata, hsize⟩ := h.transfer (.write buf) (le_refl buf.length) (fun _ => hoff) hio
    refine ⟨a', ⟨hcomes, hdata, hsize.trans ?_⟩, hholds⟩
    split_ifs <;> omega
  | seek pos =>
    obtain ⟨⟨fs', sin', err⟩, hseek, hr⟩ := bind_eq_ok_iff.mp hexec
    cases hr
    have hsize := h.size
    rw [sfsTryseek] at hseek
    split_ifs at hseek with hrange hlonger
    · cases hseek
      exact ⟨a, .inr ⟨by simp, rfl⟩, h⟩
    · obtain ⟨a', hholds, ⟨herr, hlen, hdata⟩ | hsame⟩ := h.truncate (.inr (by omega)) hseek
      · refine ⟨a', .inl ⟨herr, funext fun k => ?_, by omega⟩, hholds⟩
        rw [hdata k]
        have hend := a.ended k
        split_ifs <;> grind
      · exact ⟨a', .inr hsame, hholds⟩
    · cases hseek
      exact ⟨a, .inl ⟨rfl, rfl, by omega⟩, h⟩
  | truncate len =>
    obtain ⟨⟨fs', sin', err⟩, htrunc, hr⟩ := bind_eq_ok_iff.mp hexec
    cases hr
    obtain ⟨a', hholds, hdoes⟩ := h.truncate htame htrunc
    exact ⟨a', hdoes, hholds⟩

/-- Every read returns. -/
lemma Holds.exists_read {s : FileState} (h : Holds s a) (w : Width) (offset : ℤ) (len : ℕ) :
    ∃ x, s.exec w (.read offset len) = .ok x := by
  obtain ⟨err, hio, -⟩ | ⟨pos, endpos, -, -, -, -, -, ⟨hne, -⟩ | ⟨-, fs', sin', r, hio, -⟩⟩ :=
    sfsIoNolock_spec w offset h.ok (show Io.Provides .read len from trivial)
  · exact ⟨_, bind_eq_ok_iff.mpr ⟨_, hio, rfl⟩⟩
  · exact absurd rfl hne
  · exact ⟨_, bind_eq_ok_iff.mpr ⟨_, hio, rfl⟩⟩

end UcoreKernel.Sfs
