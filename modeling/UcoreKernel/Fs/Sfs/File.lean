import UcoreKernel.Fs.Sfs.Bmap

/-!
Files of an SFS volume: `sfs_io_nolock`, `sfs_tryseek` and `sfs_truncfile` of `fs/sfs/sfs_inode.c`.

An `off_t` is a signed number of the width of a pointer; the end of a transfer is computed in it and can
wrap.
-/

namespace UcoreKernel.Sfs

open ByteBlock

/-- The error codes of the file system. -/
inductive Errno where
  /-- `E_INVAL` -/
  | inval
  /-- `E_NO_MEM` -/
  | noMem
  /-- `E_NOENT` -/
  | noEnt
  /-- `E_EXISTS` -/
  | alreadyExists
  /-- `E_ISDIR` -/
  | isDir
  /-- `E_NOTDIR` -/
  | notDir
  /-- `E_NOTEMPTY` -/
  | notEmpty
  /-- `E_TOO_BIG` -/
  | tooBig
deriving DecidableEq

/-- The width of an `off_t`. -/
structure Width where
  bits : ℕ
  le_bits : 32 ≤ bits

/-- A number as an `off_t`. -/
def Width.offT (w : Width) (n : ℤ) : ℤ := n.bmod (2 ^ w.bits)

/-- `SFS_MAX_FILE_SIZE`. -/
def maxFileSize : ℕ := 1024 * 1024 * 128

/-- What is transferred: bytes are read, or the given ones are written. -/
inductive Io where
  | read
  | write (buf : List UInt8)

/-- A transfer that is under way: the bytes moved so far, and those that were read. -/
structure Xfer where
  fs : Fs
  sin : Sin
  alen : ℕ
  out : List UInt8

/-- `sfs_rbuf`, or `sfs_rblock` for a whole block. -/
def readOp (fs : Fs) (whole : Bool) (size ino blkoff : ℕ) : Except Panic (List UInt8) :=
  if whole then fs.rblock ino else fs.rbuf ino size blkoff

/-- `sfs_wbuf`, or `sfs_wblock` for a whole block. -/
def writeOp (fs : Fs) (whole : Bool) (bytes : List UInt8) (ino blkoff : ℕ) : Except Panic Fs :=
  if whole then fs.wblock ino bytes else fs.wbuf ino bytes blkoff

/-- `sfs_buf_op` and `sfs_block_op`. -/
def bufOp (io : Io) (whole : Bool) (x : Xfer) (size ino blkoff : ℕ) : Except Panic Xfer :=
  match io with
  | .read => do
      let bytes ← readOp x.fs whole size ino blkoff
      return { x with out := x.out ++ bytes }
  | .write buf => do
      let fs ← writeOp x.fs whole ((buf.drop x.alen).take size) ino blkoff
      return { x with fs := fs }

/-- One piece of a transfer; the result says whether the block could be had. -/
def xferStep (io : Io) (whole : Bool) (x : Xfer) (blkno blkoff size : ℕ) : Except Panic (Xfer × Bool) := do
  match ← bmapLoad x.fs x.sin blkno with
  | (fs, sin, none) => return ({ x with fs := fs, sin := sin }, false)
  | (fs, sin, some ino) =>
    let x ← bufOp io whole { x with fs := fs, sin := sin } size ino blkoff
    return ({ x with alen := x.alen + size }, true)

/-- The tail of a transfer. -/
def ioTail (io : Io) (endpos : ℕ) (x : Xfer) (blkno : ℕ) : Except Panic (Xfer × Bool) :=
  if endpos % blkSize ≠ 0 then xferStep io false x blkno 0 (endpos % blkSize) else .ok (x, true)

/-- The whole blocks of a transfer, and its tail. -/
def ioBlocks (io : Io) (endpos : ℕ) : ℕ → Xfer → ℕ → Except Panic (Xfer × Bool)
  | 0, x, blkno => ioTail io endpos x blkno
  | nblks + 1, x, blkno => do
      match ← xferStep io true x blkno 0 blkSize with
      | (x, false) => return (x, false)
      | (x, true) => ioBlocks io endpos nblks x (blkno + 1)

/-- The head of a transfer, and the rest. -/
def ioHead (io : Io) (offset endpos : ℕ) (x : Xfer) : Except Panic (Xfer × Bool) :=
  let blkno := offset / blkSize
  let nblks := endpos / blkSize - blkno
  let blkoff := offset % blkSize
  if blkoff ≠ 0 then do
    let size := if nblks ≠ 0 then blkSize - blkoff else endpos - offset
    match ← xferStep io false x blkno blkoff size with
    | (x, false) => return (x, false)
    | (x, true) => if nblks = 0 then return (x, true) else ioBlocks io endpos (nblks - 1) x (blkno + 1)
  else ioBlocks io endpos nblks x blkno

/-- The end of `sfs_io_nolock`: a file that got longer has a new size. -/
def ioOut (offset : ℕ) (x : Xfer) : Sin :=
  if offset + x.alen > x.sin.din.size then
    { din := { x.sin.din with size := offset + x.alen }, dirty := true }
  else x.sin

/-- What a transfer returns: the bytes moved, the bytes read and the error. -/
structure IoResult where
  alen : ℕ
  out : List UInt8
  err : Option Errno

/-- The transfer of `sfs_io_nolock`, from a position in the file to another. -/
def ioRange (fs : Fs) (sin : Sin) (io : Io) (offset endpos : ℕ) : Except Panic (Fs × Sin × IoResult) := do
  let (x, ok) ← ioHead io offset endpos ⟨fs, sin, 0, []⟩
  return (x.fs, ioOut offset x, ⟨x.alen, x.out, if ok then none else some .noMem⟩)

/-- `sfs_io_nolock`. -/
def sfsIoNolock (w : Width) (fs : Fs) (sin : Sin) (io : Io) (offset : ℤ) (len : ℕ) :
    Except Panic (Fs × Sin × IoResult) :=
  if sin.din.type = .dir then .error .isDir
  else
    let endpos := w.offT (offset + len)
    if offset < 0 ∨ offset ≥ maxFileSize ∨ offset > endpos then .ok (fs, sin, ⟨0, [], some .inval⟩)
    else if offset = endpos then .ok (fs, sin, ⟨0, [], none⟩)
    else
      let endpos := min endpos maxFileSize
      match io with
      | .write _ => ioRange fs sin io offset.toNat endpos.toNat
      | .read =>
        if offset ≥ sin.din.size then .ok (fs, sin, ⟨0, [], none⟩)
        else ioRange fs sin io offset.toNat (min endpos sin.din.size).toNat

/-- The loop of `sfs_truncfile` that appends blocks; the result says whether they could be had. -/
def growLoop : ℕ → Fs → Sin → ℕ → Except Panic (Fs × Sin × Bool)
  | 0, fs, sin, _ => .ok (fs, sin, true)
  | left + 1, fs, sin, nblks => do
      match ← bmapLoad fs sin nblks with
      | (fs, sin, none) => return (fs, sin, false)
      | (fs, sin, some _) => growLoop left fs sin (nblks + 1)

/-- The loop of `sfs_truncfile` that gives blocks back. -/
def shrinkLoop : ℕ → Fs → Sin → Except Panic (Fs × Sin)
  | 0, fs, sin => .ok (fs, sin)
  | left + 1, fs, sin => do
      let (fs, sin) ← bmapTruncate fs sin
      shrinkLoop left fs sin

/-- The end of `sfs_truncfile`. -/
def truncOut (fs : Fs) (sin : Sin) (len tblks : ℕ) : Except Panic (Fs × Sin × Option Errno) :=
  if sin.din.blocks ≠ tblks then .error .truncfileBlocks
  else .ok (fs, { din := { sin.din with size := len }, dirty := true }, none)

/-- `sfs_truncfile`. -/
def sfsTruncfile (fs : Fs) (sin : Sin) (len : ℤ) : Except Panic (Fs × Sin × Option Errno) :=
  if len < 0 ∨ len > maxFileSize then .ok (fs, sin, some .inval)
  else if sin.din.type = .dir then .error .isDir
  else
    let len := len.toNat
    let tblks := (len + blkSize - 1) / blkSize
    if sin.din.size = len then
      if tblks ≠ sin.din.blocks then .error .truncfileBlocks else .ok (fs, sin, none)
    else
      let nblks := sin.din.blocks
      if nblks < tblks then do
        match ← growLoop (tblks - nblks) fs sin nblks with
        | (fs, sin, false) => return (fs, sin, some .noMem)
        | (fs, sin, true) => truncOut fs sin len tblks
      else do
        let (fs, sin) ← shrinkLoop (nblks - tblks) fs sin
        truncOut fs sin len tblks

/-- `sfs_tryseek`. -/
def sfsTryseek (fs : Fs) (sin : Sin) (pos : ℤ) : Except Panic (Fs × Sin × Option Errno) :=
  if pos < 0 ∨ pos ≥ maxFileSize then .ok (fs, sin, some .inval)
  else if pos > sin.din.size then sfsTruncfile fs sin pos
  else .ok (fs, sin, none)

/-- A file, and the volume it is on. -/
structure FileState where
  fs : Fs
  sin : Sin

/-- The operations on a file. -/
inductive FileOp where
  | read (offset : ℤ) (len : ℕ)
  | write (offset : ℤ) (buf : List UInt8)
  | seek (pos : ℤ)
  | truncate (len : ℤ)

namespace FileState

/-- One operation, with what it returns. -/
def exec (w : Width) (s : FileState) : FileOp → Except Panic (FileState × IoResult)
  | .read offset len => do
      let (fs, sin, r) ← sfsIoNolock w s.fs s.sin .read offset len
      return (⟨fs, sin⟩, r)
  | .write offset buf => do
      let (fs, sin, r) ← sfsIoNolock w s.fs s.sin (.write buf) offset buf.length
      return (⟨fs, sin⟩, r)
  | .seek pos => do
      let (fs, sin, err) ← sfsTryseek s.fs s.sin pos
      return (⟨fs, sin⟩, ⟨0, [], err⟩)
  | .truncate len => do
      let (fs, sin, err) ← sfsTruncfile s.fs s.sin len
      return (⟨fs, sin⟩, ⟨0, [], err⟩)

/-- The state after one operation. -/
def step (w : Width) (s : FileState) (op : FileOp) : Except Panic FileState := do
  let (s', _) ← s.exec w op
  return s'

end FileState

end UcoreKernel.Sfs
