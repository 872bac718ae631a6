import UcoreKernel.Fs.Sfs.Disk

/-!
The block map of an inode: the `sfs_bmap_*` functions of `fs/sfs/sfs_inode.c`.

An inode names its first blocks itself, the next ones in an indirect block, and the rest in blocks
below a double indirect block. Index blocks are created when the first block below them is.
-/

namespace UcoreKernel.Sfs

open ByteBlock

/-- The part of `struct sfs_inode` that the block map uses. -/
structure Sin where
  din : Din
  dirty : Bool

/-- The last part of `sfs_bmap_get_sub_nolock`: a new block, entered into the index block. -/
def bmapAllocSub (fs : Fs) (ent index : ℕ) : Except Panic (Fs × Option ℕ) := do
  match ← fs.blockAlloc with
  | (fs, none) => return (fs, none)
  | (fs, some ino) => return (← fs.wbuf ent (leBytes 4 ino) (4 * index), some ino)

/-- `sfs_bmap_get_sub_nolock`; the result is the index block and the block found in it. -/
def bmapGetSub (fs : Fs) (ent index : ℕ) (create : Bool) : Except Panic (Fs × Option (ℕ × ℕ)) :=
  if nentry ≤ index then .error .nentry
  else if ent ≠ 0 then do
    let ino := leNat (← fs.rbuf ent 4 (4 * index))
    if ino ≠ 0 ∨ create = false then return (fs, some (ent, ino))
    else
      match ← bmapAllocSub fs ent index with
      | (fs, none) => return (fs, none)
      | (fs, some ino) => return (fs, some (ent, ino))
  else if create = false then return (fs, some (0, 0))
  else do
    match ← fs.blockAlloc with
    | (fs, none) => return (fs, none)
    | (fs, some ent) =>
      match ← bmapAllocSub fs ent index with
      | (fs, none) => return (← fs.blockFree ent, none)
      | (fs, some ino) => return (fs, some (ent, ino))

namespace Sin

/-- A new direct block. -/
def setDirect (sin : Sin) (i : Fin ndirect) (ino : ℕ) : Sin :=
  { din := { sin.din with direct := Function.update sin.din.direct i ino }, dirty := true }

/-- `din->indirect = ent`, if it is another one. -/
def setIndirect (sin : Sin) (ent : ℕ) : Except Panic Sin :=
  if ent = sin.din.indirect then .ok sin
  else if sin.din.indirect ≠ 0 then .error .indirectSet
  else .ok { din := { sin.din with indirect := ent }, dirty := true }

/-- `din->db_indirect = ent`, if it is another one. -/
def setDbIndirect (sin : Sin) (ent : ℕ) : Except Panic Sin :=
  if ent = sin.din.dbIndirect then .ok sin
  else if sin.din.dbIndirect ≠ 0 then .error .indirectSet
  else .ok { din := { sin.din with dbIndirect := ent }, dirty := true }

end Sin

/-- The end of `sfs_bmap_get_nolock`. -/
def bmapOut (fs : Fs) (sin : Sin) (ino : ℕ) : Except Panic (Fs × Sin × Option ℕ) :=
  if ino = 0 then .ok (fs, sin, some 0)
  else do
    fs.assertInuse ino
    return (fs, sin, some ino)

/-- `sfs_bmap_get_nolock` for a direct block. -/
def bmapGetDirect (fs : Fs) (sin : Sin) (i : Fin ndirect) (create : Bool) :
    Except Panic (Fs × Sin × Option ℕ) :=
  if sin.din.direct i = 0 ∧ create = true then do
    match ← fs.blockAlloc with
    | (fs, none) => return (fs, sin, none)
    | (fs, some ino) => bmapOut fs (sin.setDirect i ino) ino
  else bmapOut fs sin (sin.din.direct i)

/-- `sfs_bmap_get_nolock` for a block of the indirect block. -/
def bmapGetIndirect (fs : Fs) (sin : Sin) (index : ℕ) (create : Bool) : Except Panic (Fs × Sin × Option ℕ) := do
  match ← bmapGetSub fs sin.din.indirect index create with
  | (fs, none) => return (fs, sin, none)
  | (fs, some (ent, ino)) => bmapOut fs (← sin.setIndirect ent) ino

/-- `sfs_bmap_get_nolock` for a block below the double indirect block. -/
def bmapGetDbIndirect (fs : Fs) (sin : Sin) (index : ℕ) (create : Bool) :
    Except Panic (Fs × Sin × Option ℕ) := do
  match ← bmapGetSub fs sin.din.dbIndirect (index / nentry) create with
  | (fs, none) => return (fs, sin, none)
  | (fs, some (ent, ino)) =>
    let sin ← sin.setDbIndirect ent
    if ino = 0 then bmapOut fs sin 0
    else
      match ← bmapGetSub fs ino (index % nentry) create with
      | (fs, none) => return (fs, sin, none)
      | (fs, some (_, ino)) => bmapOut fs sin ino

/-- `sfs_bmap_get_nolock`. -/
def bmapGet (fs : Fs) (sin : Sin) (index : ℕ) (create : Bool) : Except Panic (Fs × Sin × Option ℕ) :=
  if h : index < ndirect then bmapGetDirect fs sin ⟨index, h⟩ create
  else if index - ndirect < nentry then bmapGetIndirect fs sin (index - ndirect) create
  else bmapGetDbIndirect fs sin (index - ndirect - nentry) create

/-- `sfs_bmap_free_sub_nolock`. -/
def bmapFreeSub (fs : Fs) (ent index : ℕ) : Except Panic Fs := do
  fs.assertInuse ent
  if nentry ≤ index then throw .nentry
  let ino := leNat (← fs.rbuf ent 4 (4 * index))
  if ino = 0 then return fs
  else
    let fs ← fs.wbuf ent (leBytes 4 0) (4 * index)
    fs.blockFree ino

/-- `sfs_bmap_free_nolock`. -/
def bmapFree (fs : Fs) (sin : Sin) (index : ℕ) : Except Panic (Fs × Sin) :=
  if h : index < ndirect then
    if sin.din.direct ⟨index, h⟩ = 0 then .ok (fs, sin)
    else do
      let fs ← fs.blockFree (sin.din.direct ⟨index, h⟩)
      return (fs, sin.setDirect ⟨index, h⟩ 0)
  else if index - ndirect < nentry then
    if sin.din.indirect = 0 then .ok (fs, sin)
    else return (← bmapFreeSub fs sin.din.indirect (index - ndirect), sin)
  else if sin.din.dbIndirect = 0 then .ok (fs, sin)
  else do
    match ← bmapGetSub fs sin.din.dbIndirect ((index - ndirect - nentry) / nentry) false with
    | (fs, none) => return (fs, sin)
    | (fs, some (_, ino)) =>
      if ino = 0 then return (fs, sin)
      else return (← bmapFreeSub fs ino ((index - ndirect - nentry) % nentry), sin)

/-- `sfs_bmap_load_nolock`. -/
def bmapLoad (fs : Fs) (sin : Sin) (index : ℕ) : Except Panic (Fs × Sin × Option ℕ) :=
  if sin.din.blocks < index then .error .loadIndex
  else do
    let create : Bool := index = sin.din.blocks
    match ← bmapGet fs sin index create with
    | (fs, sin, none) => return (fs, sin, none)
    | (fs, sin, some ino) =>
      fs.assertInuse ino
      let sin := if create then
          { sin with din := { sin.din with blocks := sin.din.blocks + 1 } } else sin
      return (fs, sin, some ino)

/-- `sfs_bmap_truncate_nolock`. -/
def bmapTruncate (fs : Fs) (sin : Sin) : Except Panic (Fs × Sin) :=
  if sin.din.blocks = 0 then .error .truncateEmpty
  else do
    let (fs, sin) ← bmapFree fs sin (sin.din.blocks - 1)
    return (fs, { din := { sin.din with blocks := sin.din.blocks - 1 }, dirty := true })

end UcoreKernel.Sfs
