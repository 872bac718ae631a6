import UcoreKernel.Fs.Sfs.FileSize

/-!
Several descriptors on one file: `file_open`, `file_seek`, `file_read` and `file_write` of `fs/file.c`,
down to the file system.

A position is compared with the size of the file when a descriptor seeks. Another descriptor can
shorten the file afterwards, by an open with `O_TRUNC`, and a write at the old position then asks for a
block that is not the next one.
-/

namespace UcoreKernel.Sfs

open ByteBlock Guarded

/-- `O_ACCMODE`. -/
inductive AccMode where
  | rdonly
  | wronly
  | rdwr
  /-- The value 3. -/
  | invalid

/-- The flags of an open of a file that exists. -/
structure OpenFlags where
  access : AccMode
  trunc : Bool
  append : Bool

/-- `readable` and `writable`, as `file_open` derives them. -/
def AccMode.rights : AccMode → Option (Bool × Bool)
  | .rdonly => some (true, false)
  | .wronly => some (false, true)
  | .rdwr => some (true, true)
  | .invalid => none

/-- `struct file`, for a file that is open. -/
structure Desc where
  pos : ℤ
  readable : Bool
  writable : Bool

/-- `whence`. -/
inductive Whence where
  | set
  | cur
  | fromEnd
  | other

/-- A file and the descriptors on it. -/
structure Openers extends FileState where
  descs : List Desc

namespace Openers

/-- The truncation in `vfs_open`. -/
def openTruncate (s : FileState) (trunc : Bool) : Except Panic (FileState × Option Errno) :=
  if trunc then do
    let (fs, sin, err) ← sfsTruncfile s.fs s.sin 0
    return (⟨fs, sin⟩, err)
  else .ok (s, none)

/-- `file_open` of the file; the result is the descriptor, or an error. -/
def fileOpen (s : Openers) (flags : OpenFlags) : Except Panic (Openers × Except Errno ℕ) :=
  match flags.access.rights with
  | none => .ok (s, .error .inval)
  | some (readable, writable) =>
    if flags.trunc = true ∧ writable = false then .ok (s, .error .inval)
    else do
      match ← openTruncate s.toFileState flags.trunc with
      | (f, some err) => return (⟨f, s.descs⟩, .error err)
      | (f, none) =>
        let pos : ℤ := if flags.append then f.sin.din.size else 0
        return (⟨f, s.descs ++ [⟨pos, readable, writable⟩]⟩, .ok s.descs.length)

/-- The position that `file_seek` tries. -/
def seekPos (w : Width) (s : Openers) (d : Desc) (pos : ℤ) : Whence → Option ℤ
  | .set => some pos
  | .cur => some (w.offT (pos + d.pos))
  | .fromEnd => some (w.offT (pos + s.sin.din.size))
  | .other => none

/-- `file_seek`. -/
def fileSeek (w : Width) (s : Openers) (fd : ℕ) (pos : ℤ) (whence : Whence) :
    Except Panic (Openers × Option Errno) :=
  match s.descs[fd]? with
  | none => .ok (s, some .inval)
  | some d =>
    match s.seekPos w d pos whence with
    | none => .ok (s, some .inval)
    | some pos => do
        match ← sfsTryseek s.fs s.sin pos with
        | (fs, sin, some err) => return (⟨⟨fs, sin⟩, s.descs⟩, some err)
        | (fs, sin, none) => return (⟨⟨fs, sin⟩, s.descs.set fd { d with pos := pos }⟩, none)

/-- `file_read` and `file_write`, for a descriptor that is there and may do so. -/
def fileIo (w : Width) (s : Openers) (fd : ℕ) (d : Desc) (io : Io) (len : ℕ) :
    Except Panic (Openers × IoResult) := do
  let (fs, sin, r) ← sfsIoNolock w s.fs s.sin io d.pos len
  return (⟨⟨fs, sin⟩, s.descs.set fd { d with pos := d.pos + r.alen }⟩, r)

/-- `file_read`. -/
def fileRead (w : Width) (s : Openers) (fd len : ℕ) : Except Panic (Openers × IoResult) :=
  match s.descs[fd]? with
  | none => .ok (s, ⟨0, [], some .inval⟩)
  | some d => if d.readable = false then .ok (s, ⟨0, [], some .inval⟩) else s.fileIo w fd d .read len

/-- `file_write`. -/
def fileWrite (w : Width) (s : Openers) (fd : ℕ) (buf : List UInt8) : Except Panic (Openers × IoResult) :=
  match s.descs[fd]? with
  | none => .ok (s, ⟨0, [], some .inval⟩)
  | some d =>
    if d.writable = false then .ok (s, ⟨0, [], some .inval⟩)
    else s.fileIo w fd d (.write buf) buf.length

/-- The calls. -/
inductive Call where
  | openFile (flags : OpenFlags)
  | seek (fd : ℕ) (pos : ℤ) (whence : Whence)
  | read (fd len : ℕ)
  | write (fd : ℕ) (buf : List UInt8)

/-- The state after a call. -/
def step (w : Width) (s : Openers) : Call → Except Panic Openers
  | .openFile flags => Prod.fst <$> s.fileOpen flags
  | .seek fd pos whence => Prod.fst <$> s.fileSeek w fd pos whence
  | .read fd len => Prod.fst <$> s.fileRead w fd len
  | .write fd buf => Prod.fst <$> s.fileWrite w fd buf

/-- A write that transfers anything begins in a block of the file or in the one after the last. -/
def Covered (w : Width) (s : Openers) : Call → Prop
  | .write fd buf => ∀ d, s.descs[fd]? = some d → d.writable = true → 0 ≤ d.pos →
      d.pos < maxFileSize → d.pos < w.offT (d.pos + buf.length) →
      d.pos / blkSize ≤ s.sin.din.blocks
  | .openFile _ | .seek _ _ _ | .read _ _ => True

/-! ### The single call -/

/-- The file of an opener is in order. -/
def Ok (s : Openers) : Prop := FileOk s.fs s.sin

/-- The file is in order afterwards, unless a size did not fit the blocks. -/
def Sound (x : Except Panic Openers) : Prop := Except.Ensures (· ≠ .loadIndex) x Ok

variable {w : Width} {s : Openers}

variable (h : s.Ok)
include h

lemma fileOpen_sound (flags : OpenFlags) : Sound (s.step w (.openFile flags)) := by
  rw [step, fileOpen]
  cases flags.access.rights with
  | none => exact h
  | some rights =>
    dsimp only
    by_cases hrights : flags.trunc = true ∧ rights.2 = false
    · rw [if_pos hrights]
      exact h
    · rw [if_neg hrights, openTruncate]
      by_cases htrunc : flags.trunc = true
      · rw [if_pos htrunc]
        have htrunc := sfsTruncfile_ensures h 0
        rcases hresult : sfsTruncfile s.fs s.sin 0 with p | ⟨fs, sin, err⟩
        · rw [hresult] at htrunc
          exact htrunc ▸ nofun
        · rw [hresult] at htrunc
          cases err with
          | none | some => exact htrunc.1
      · rw [if_neg htrunc]
        exact h

lemma fileSeek_sound (fd : ℕ) (pos : ℤ) (whence : Whence) : Sound (s.step w (.seek fd pos whence)) := by
  rw [step, fileSeek]
  cases s.descs[fd]? with
  | none => exact h
  | some d =>
    dsimp only
    cases s.seekPos w d pos whence with
    | none => exact h
    | some pos =>
      have hseek := sfsTryseek_ensures h pos
      dsimp only
      rcases hresult : sfsTryseek s.fs s.sin pos with p | ⟨fs, sin, err⟩
      · rw [hresult] at hseek
        exact hseek ▸ nofun
      · rw [hresult] at hseek
        cases err with
        | none | some => exact hseek.1

/-- A transfer fails the assertion if and only if it begins too far behind the end. -/
lemma fileIo_sound (fd : ℕ) (d : Desc) (io : Io) (len : ℕ) (hbuf : io.Provides len) :
    (io ≠ .read ∧ 0 ≤ d.pos ∧ d.pos < maxFileSize ∧ d.pos < w.offT (d.pos + len) ∧
      s.sin.din.blocks < d.pos / blkSize ∧ s.fileIo w fd d io len = .error .loadIndex) ∨
    (∃ s' r, s.fileIo w fd d io len = .ok (s', r) ∧ s'.Ok ∧ (io ≠ .read → 0 ≤ d.pos →
      d.pos < maxFileSize → d.pos < w.offT (d.pos + len) → d.pos / blkSize ≤ s.sin.din.blocks)) := by
  have hdiv : ∀ pos : ℕ, (pos / blkSize) = ((pos / blkSize : ℕ) : ℤ) := fun pos => by
    rw [Int.natCast_div]
  rw [fileIo]
  rcases sfsIoNolock_spec w d.pos h hbuf with ⟨err, hio, hidle⟩ |
    ⟨pos, endpos, hpos, hend, hlt, hmax, -, ⟨hread, hblocks, hio⟩ | ⟨hle, fs', sin', r, hio, hran⟩⟩
  · rw [hio]
    refine .inr ⟨_, _, rfl, h, fun hread hnonneg hmax hlt => ?_⟩
    -- nothing was transferred, so the range is not one of a file
    cases err with
    | none =>
      obtain heq | ⟨-, hread', -⟩ := hidle.2.2
      · omega
      · exact absurd hread' hread
    | some err =>
      obtain hneg | hge | hgt := hidle.2
      · omega
      · omega
      · omega
  · rw [hio]
    refine .inl ⟨hread, by omega, by omega, ?_, by rw [hpos, hdiv]; omega, rfl⟩
    cases io with
    | read => exact absurd rfl hread
    | write buf =>
      rw [Io.stop] at hend
      omega
  · rw [hio]
    refine .inr ⟨_, _, rfl, hran.ok, fun _ _ _ _ => ?_⟩
    rw [hpos, hdiv]
    omega

lemma fileRead_sound (fd len : ℕ) : Sound (s.step w (.read fd len)) := by
  rw [step, fileRead]
  cases s.descs[fd]? with
  | none => exact h
  | some d =>
    dsimp only
    split_ifs
    · exact h
    · rcases fileIo_sound h fd d .read len trivial with
        ⟨hread, -⟩ | ⟨s', r, hio, hs', -⟩
      · exact absurd rfl hread
      · rw [hio]
        exact hs'

/-- A write is covered, or it fails the assertion. -/
lemma fileWrite_sound (fd : ℕ) (buf : List UInt8) :
    (s.Covered w (.write fd buf) → Sound (s.step w (.write fd buf))) ∧
      (¬s.Covered w (.write fd buf) → s.step w (.write fd buf) = .error .loadIndex) := by
  rw [step, fileWrite]
  cases hd : s.descs[fd]? with
  | none => exact ⟨fun _ => h, fun hne => absurd (fun d hd' => by rw [hd] at hd'; cases hd') hne⟩
  | some d =>
    have hcovered : s.Covered w (.write fd buf) ↔ (d.writable = true → 0 ≤ d.pos →
        d.pos < maxFileSize → d.pos < w.offT (d.pos + buf.length) →
        d.pos / blkSize ≤ s.sin.din.blocks) := by grind [Covered]
    dsimp only
    rw [hcovered]
    split_ifs with hwritable
    · exact ⟨fun _ => h, fun hne => absurd (fun htrue => by simp [hwritable] at htrue) hne⟩
    · rcases fileIo_sound h fd d (.write buf) buf.length (le_refl buf.length) with
        ⟨-, hnonneg, hmax, hlt, hblocks, hio⟩ | ⟨s', r, hio, hs', hle⟩
      · rw [hio]
        exact ⟨fun hall => absurd (hall (by simpa using hwritable) hnonneg hmax hlt) (by omega), fun _ => rfl⟩
      · rw [hio]
        exact ⟨fun _ => hs', fun hne => absurd (fun _ => hle nofun) hne⟩

end Openers

/-- Descriptors on a file that is in order. -/
structure OpenFile extends Openers where
  ok : toOpeners.Ok

open Openers in
/-- From any positions of the descriptors on, for every sequence of calls: the assertion of
`sfs_bmap_load_nolock` does not fail, if and only if every write begins in a block of the file or in
the one after the last. -/
theorem load_asserts_iff_covered (w : Width) (f : OpenFile) (calls : List Call) :
    CorrectUpTo (step w) (fun _ => True) (· ≠ .loadIndex) f.toOpeners calls ↔
      AllSafe (step w) (Covered w) f.toOpeners calls := by
  refine correctUpTo_iff_allSafe Ok (fun _ _ => trivial) ?_ ?_ f.ok calls
  · intro s call h hcovered
    cases call with
    | openFile flags => exact fileOpen_sound h flags
    | seek fd pos whence => exact fileSeek_sound h fd pos whence
    | read fd len => exact fileRead_sound h fd len
    | write fd buf => exact (fileWrite_sound h fd buf).1 hcovered
  · intro s call h hcovered
    cases call with
    | openFile | seek | read => exact absurd trivial hcovered
    | write fd buf =>
      rw [(fileWrite_sound h fd buf).2 hcovered]
      exact fun hne => hne rfl

/-! ### A descriptor behind the end -/

/-- A volume of eight blocks, the last four of which are free. -/
def smallVolume : Fs where
  blocks := 8
  unusedBlocks := 4
  superDirty := false
  free b := decide (4 ≤ b ∧ b < 8)
  disk _ := zero

lemma smallVolume_ok : FsOk smallVolume := by
  have hfree : ∀ b, smallVolume.free b = true ↔ 4 ≤ b ∧ b < 8 := fun b => decide_eq_true_iff
  refine ⟨by decide, fun b hb => ?_, ?_⟩
  · have hlt := (hfree b).mp hb
    exact ⟨by omega, hlt.2⟩
  · have hbits : (Finset.range smallVolume.freemapBits).filter (smallVolume.free ·) =
        Finset.Ico 4 8 := by
      ext b
      have hbits : smallVolume.freemapBits = 32768 := rfl
      grind
    rw [Fs.freeBits, hbits]
    rfl

/-- An empty file on that volume, which nobody has open. -/
def smallFile : OpenFile where
  fs := smallVolume
  sin := emptySin
  descs := []
  ok := emptySin_ok smallVolume_ok

/-- A descriptor seeks to the end of the second block, which makes the file that long; another open
truncates the file, and a write through the first descriptor fails the assertion. -/
theorem write_after_truncate_fails :
    smallFile.toOpeners.step ⟨32, le_rfl⟩ (.openFile ⟨.rdwr, false, false⟩) >>= (fun s =>
      s.step ⟨32, le_rfl⟩ (.seek 0 8192 .set) >>= fun s =>
      s.step ⟨32, le_rfl⟩ (.openFile ⟨.rdwr, true, false⟩) >>= fun s =>
      s.step ⟨32, le_rfl⟩ (.write 0 [0])) = .error .loadIndex := rfl

end UcoreKernel.Sfs
