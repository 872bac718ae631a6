import UcoreKernel.Fs.Sfs.File

/-!
A mounted SFS volume: the inodes in memory, the directories and the operations on names, from
`fs/sfs/sfs_inode.c` and `fs/vfs/inode.c`.

Every entry of a directory has a block of its own. An inode is in memory as long as someone refers to
it; when the last reference goes, it is written back, or its blocks are released if it has no links.

The operations are taken one at a time. Whether a `kmalloc` succeeds is part of the operation: `mem k`
for the `k`-th place where it allocates.
-/

namespace UcoreKernel.Sfs

open ByteBlock Function

/-! ### Entries -/

/-- `sizeof(struct sfs_disk_entry)`. -/
def direntSize : ℕ := 260

/-- `sizeof(struct sfs_disk_inode)`. -/
def dinSize : ℕ := 72

/-- `sfs_dirent_read_nolock`; the result is `none` for `-E_NO_MEM`. -/
def direntRead (fs : Fs) (sin : Sin) (slot : ℕ) : Except Panic (Fs × Sin × Option Dirent) :=
  if sin.din.type = .dir ∧ slot < sin.din.blocks then do
    match ← bmapLoad fs sin slot with
    | (fs, sin, none) => return (fs, sin, none)
    | (fs, sin, some ino) =>
      fs.assertInuse ino
      let bytes ← fs.rbuf ino direntSize 0
      return (fs, sin, some (.ofBlock (write zero 0 bytes)))
  else .error .direntSlot

/-- `sfs_dirent_write_nolock`; a slot is cleared with `Dirent.empty`. -/
def direntWrite (mem : Bool) (fs : Fs) (sin : Sin) (slot : ℕ) (entry : Dirent) :
    Except Panic (Fs × Sin × Option Errno) :=
  if sin.din.type = .dir ∧ slot ≤ sin.din.blocks then
    if mem = false then .ok (fs, sin, some .noMem)
    else if entry.ino ≠ 0 ∧ Name.maxFnameLen < entry.name.strlen then .error .nameLen
    else do
      match ← bmapLoad fs sin slot with
      | (fs, sin, none) => return (fs, sin, some .noMem)
      | (fs, sin, some ino) =>
        fs.assertInuse ino
        let fs ← fs.wbuf ino entry.toBytes 0
        return (fs, sin, none)
  else .error .direntSlot

/-- What `sfs_dirent_search_nolock` returns. -/
inductive Search where
  | failed (err : Errno)
  | found (slot ino : ℕ)
  | missing (emptySlot : ℕ)

/-- The loop of `sfs_dirent_search_nolock`. -/
def searchLoop (name : Name) : ℕ → Fs → Sin → ℕ → ℕ → Except Panic (Fs × Sin × Search)
  | 0, fs, sin, _, emptySlot => .ok (fs, sin, .missing emptySlot)
  | left + 1, fs, sin, i, emptySlot => do
      match ← direntRead fs sin i with
      | (fs, sin, none) => return (fs, sin, .failed .noMem)
      | (fs, sin, some entry) =>
        if entry.ino = 0 then searchLoop name left fs sin (i + 1) i
        else if name = entry.name then return (fs, sin, .found i entry.ino)
        else searchLoop name left fs sin (i + 1) emptySlot

/-- `sfs_dirent_search_nolock`. -/
def direntSearch (mem : Bool) (fs : Fs) (sin : Sin) (name : Name) : Except Panic (Fs × Sin × Search) :=
  if Name.maxFnameLen < name.strlen then .error .nameLen
  else if mem = false then .ok (fs, sin, .failed .noMem)
  else searchLoop name sin.din.blocks fs sin 0 sin.din.blocks

/-! ### Inodes in memory -/

/-- `struct sfs_inode`, with the reference count of `struct inode`. -/
structure Node where
  sin : Sin
  /-- `SFS_removed` -/
  removed : Bool
  ref : ℕ
  reclaimCount : ℕ

/-- A volume, with the inodes in memory by their numbers. -/
structure Vol where
  fs : Fs
  cache : ℕ → Option Node
  /-- The inodes that have been allocated and not been released yet; no code depends on it. -/
  inodes : Finset ℕ

namespace Vol

/-- The inode with a number, in memory or on disk. -/
def sin (v : Vol) (n : ℕ) : Sin :=
  match v.cache n with
  | some node => node.sin
  | none => ⟨.ofBlock (v.fs.disk n), false⟩

/-- The same without the flag. -/
def din (v : Vol) (n : ℕ) : Din := (v.sin n).din

/-- The inode has been removed from its directory, as one that is still referred to. -/
def removed (v : Vol) (n : ℕ) : Bool := ((v.cache n).map Node.removed).getD false

/-- An inode in memory is replaced, and the blocks of the volume. -/
def put (v : Vol) (n : ℕ) (fs : Fs) (sin : Sin) : Vol where
  fs := fs
  cache := update v.cache n ((v.cache n).map fun node => { node with sin := sin })
  inodes := v.inodes

/-- An inode in memory is changed, and marked as changed. -/
def modify (v : Vol) (n : ℕ) (f : Din → Din) : Vol := v.put n v.fs ⟨f (v.din n), true⟩

/-- The inode with a number is another one in memory, or none. -/
def setNode (v : Vol) (n : ℕ) (node : Option Node) : Vol :=
  { v with cache := update v.cache n node }

/-- `sfs_nlinks_inc_nolock`. -/
def nlinksInc (v : Vol) (n : ℕ) : Vol := v.modify n fun din => { din with nlinks := din.nlinks + 1 }

/-- `sfs_nlinks_dec_nolock`. -/
def nlinksDec (v : Vol) (n : ℕ) : Except Panic Vol :=
  if (v.din n).nlinks = 0 then .error .nlinksDec
  else .ok (v.modify n fun din => { din with nlinks := din.nlinks - 1 })

/-- `sfs_dirinfo_set_parent`. -/
def setParent (v : Vol) (n parent : ℕ) : Vol := v.modify n fun din => { din with parent := parent }

/-- `sfs_get_ops`. -/
def getOps (type : FileType) : Except Panic Unit :=
  if type = .dir ∨ type = .file then .ok () else .error .fileType

/-- `sfs_load_inode`, for an inode that is not in memory. -/
def readInode (mem₁ mem₂ : Bool) (v : Vol) (ino : ℕ) : Except Panic (Vol × Option Errno) :=
  if mem₁ = false then .ok (v, some .noMem)
  else do
    v.fs.assertInuse ino
    let bytes ← v.fs.rbuf ino dinSize 0
    let din := Din.ofBlock (write zero 0 bytes)
    if din.nlinks = 0 then throw .loadNlinks
    else if mem₂ = false then return (v, some .noMem)
    else
      getOps din.type
      return (v.setNode ino (some ⟨⟨din, false⟩, false, 1, 1⟩), none)

/-- `sfs_load_inode`. -/
def loadInode (mem₁ mem₂ : Bool) (v : Vol) (ino : ℕ) : Except Panic (Vol × Option Errno) :=
  match v.cache ino with
  | some node =>
    let count := if node.ref = 0 then node.reclaimCount + 1 else node.reclaimCount
    .ok (v.setNode ino (some { node with ref := node.ref + 1, reclaimCount := count }), none)
  | none => v.readInode mem₁ mem₂ ino

/-- An inode of no size and without links. -/
def freshDin (type : FileType) : Din := ⟨0, 0, type, 0, 0, fun _ => 0, 0, 0⟩

/-- `sfs_dirent_create_inode`; the result is `none` for `-E_NO_MEM`. -/
def createInode (mem₁ mem₂ : Bool) (v : Vol) (type : FileType) : Except Panic (Vol × Option ℕ) :=
  if mem₁ = false then .ok (v, none)
  else do
    match ← v.fs.blockAlloc with
    | (fs, none) => return ({ v with fs := fs }, none)
    | (fs, some ino) =>
      if mem₂ = false then
        let fs ← fs.blockFree ino
        return ({ v with fs := fs }, none)
      else
        getOps type
        return (⟨fs, update v.cache ino (some ⟨⟨freshDin type, false⟩, false, 1, 1⟩),
          insert ino v.inodes⟩, some ino)

/-- An inode is written to its block. -/
def writeDin (v : Vol) (n : ℕ) : Except Panic Vol := do
  let fs ← v.fs.wbuf n ((v.din n).toWords.flatMap (leBytes 4)) 0
  return v.put n fs ⟨v.din n, false⟩

/-- `sfs_fsync`. -/
def fsync (v : Vol) (n : ℕ) : Except Panic (Vol × Option Errno) :=
  if (v.din n).nlinks = 0 ∨ (v.sin n).dirty = false then .ok (v, none)
  else if v.removed n = true then .ok (v, some .noEnt)
  else do
    let v ← v.writeDin n
    return (v, none)

/-- The loop of `sfs_reclaim` over the double indirect block. -/
def freeSubs (ent : ℕ) : ℕ → Fs → ℕ → Except Panic Fs
  | 0, fs, _ => .ok fs
  | left + 1, fs, i => do
      let fs ← bmapFreeSub fs ent i
      freeSubs ent left fs (i + 1)

/-- `sfs_reclaim`: the indirect block is given back. -/
def freeIndirect (fs : Fs) (ent : ℕ) : Except Panic Fs := if ent = 0 then .ok fs else fs.blockFree ent

/-- `sfs_reclaim`: the double indirect block is given back. -/
def freeDbIndirect (fs : Fs) (ent : ℕ) : Except Panic Fs :=
  if ent = 0 then .ok fs
  else do
    let fs ← freeSubs ent nentry fs 0
    fs.blockFree ent

/-- `sfs_reclaim`, for an inode without links. -/
def release (v : Vol) (n : ℕ) : Except Panic Vol := do
  let (fs, sin) ← shrinkLoop (v.din n).blocks v.fs (v.sin n)
  let fs ← fs.blockFree n
  let fs ← freeIndirect fs sin.din.indirect
  let fs ← freeDbIndirect fs sin.din.dbIndirect
  return ⟨fs, update v.cache n none, v.inodes.erase n⟩

/-- `sfs_reclaim`, for an inode that has links. -/
def evict (v : Vol) (n : ℕ) : Except Panic Vol := do
  match ← v.fsync n with
  | (v, some _) => return v
  | (v, none) => return v.setNode n none

/-- `sfs_reclaim`. -/
def reclaim (v : Vol) (n : ℕ) (node : Node) : Except Panic Vol :=
  if node.reclaimCount = 0 then .error .reclaimCount
  else
    let v := v.setNode n (some { node with reclaimCount := node.reclaimCount - 1 })
    if node.reclaimCount - 1 ≠ 0 then .ok v
    else if node.sin.din.nlinks = 0 then v.release n
    else v.evict n

/-- `inode_ref_dec`. -/
def refDec (v : Vol) (n : ℕ) : Except Panic Vol :=
  match v.cache n with
  | none => .ok v
  | some node =>
    if node.ref = 0 then .error .refCount
    else if node.ref - 1 = 0 then v.reclaim n { node with ref := 0 }
    else .ok (v.setNode n (some { node with ref := node.ref - 1 }))

/-! ### Operations on names -/

/-- `sfs_dirent_search_nolock`, on a directory in memory. -/
def search (mem : Bool) (v : Vol) (d : ℕ) (name : Name) : Except Panic (Vol × Search) := do
  let (fs, sin, result) ← direntSearch mem v.fs (v.sin d) name
  return (v.put d fs sin, result)

/-- `sfs_dirent_link_nolock`. -/
def direntLink (mem : Bool) (v : Vol) (d slot n : ℕ) (name : Name) : Except Panic (Vol × Option Errno) := do
  match ← direntWrite mem v.fs (v.sin d) slot ⟨n, name⟩ with
  | (fs, sin, some err) => return (v.put d fs sin, some err)
  | (fs, sin, none) =>
    let v := v.put d fs ⟨{ sin.din with size := sin.din.size + 1 }, true⟩
    return (v.nlinksInc n, none)

/-- `sfs_dirent_unlink_nolock`. -/
def direntUnlink (mem : Bool) (v : Vol) (d slot n : ℕ) : Except Panic (Vol × Option Errno) := do
  match ← direntWrite mem v.fs (v.sin d) slot .empty with
  | (fs, sin, some err) => return (v.put d fs sin, some err)
  | (fs, sin, none) =>
    let v := v.put d fs sin
    if (v.din d).slots = 0 ∨ (v.din n).nlinks = 0 then throw .unlinkCount
    else
      let v := v.modify d fun din => { din with size := din.size - 1 }
      return (v.modify n fun din => { din with nlinks := din.nlinks - 1 }, none)

/-- The name `.`. -/
def dot : Name := ⟨[46], by decide⟩

/-- The name `..`. -/
def dotdot : Name := ⟨[46, 46], by decide⟩

/-- `sfs_lookup_once`; the result is the inode, to which there is one more reference. -/
def sfsLookupOnce (mem : ℕ → Bool) (v : Vol) (d : ℕ) (name : Name) : Except Panic (Vol × Except Errno ℕ) :=
  if v.removed d = true then .ok (v, .error .noEnt)
  else do
    match ← v.search (mem 0) d name with
    | (v, .failed err) => return (v, .error err)
    | (v, .missing _) => return (v, .error .noEnt)
    | (v, .found _ ino) =>
      match ← v.loadInode (mem 1) (mem 2) ino with
      | (v, some err) => return (v, .error err)
      | (v, none) => return (v, .ok ino)

/-- `sfs_load_parent`; it does not matter whether the directory has been removed. -/
def loadParent (mem : ℕ → Bool) (v : Vol) (d : ℕ) : Except Panic (Vol × Except Errno ℕ) := do
  let ino := (v.din d).parent
  match ← v.loadInode (mem 0) (mem 1) ino with
  | (v, some err) => return (v, .error err)
  | (v, none) => return (v, .ok ino)

/-- `vop_ref_inc`. -/
def refInc (v : Vol) (n : ℕ) : Vol :=
  v.setNode n ((v.cache n).map fun node => { node with ref := node.ref + 1 })

/-- One component of a path, in `sfs_lookup`. -/
def sfsLookup (mem : ℕ → Bool) (v : Vol) (d : ℕ) (name : Name) : Except Panic (Vol × Except Errno ℕ) :=
  if name = dot then .ok (v.refInc d, .ok d)
  else if name = dotdot then v.loadParent mem d
  else if Name.maxFnameLen < name.strlen then .ok (v, .error .tooBig)
  else v.sfsLookupOnce mem d name

/-- `sfs_create_nolock`, when the name is there. -/
def createFound (mem : ℕ → Bool) (v : Vol) (ino : ℕ) (excl : Bool) : Except Panic (Vol × Except Errno ℕ) :=
  if excl = true then .ok (v, .error .alreadyExists)
  else do
    match ← v.loadInode (mem 1) (mem 2) ino with
    | (v, some err) => return (v, .error err)
    | (v, none) =>
      if (v.din ino).type = .file then return (v, .ok ino)
      else
        let v ← v.refDec ino
        return (v, .error .alreadyExists)

/-- `sfs_create_nolock`, when the name is not there. -/
def createMissing (mem : ℕ → Bool) (v : Vol) (d slot : ℕ) (name : Name) :
    Except Panic (Vol × Except Errno ℕ) := do
  match ← v.createInode (mem 1) (mem 2) .file with
  | (v, none) => return (v, .error .noMem)
  | (v, some ino) =>
    match ← v.direntLink (mem 3) d slot ino name with
    | (v, some err) =>
      let v ← v.refDec ino
      return (v, .error err)
    | (v, none) => return (v, .ok ino)

/-- `sfs_create`. -/
def sfsCreate (mem : ℕ → Bool) (v : Vol) (d : ℕ) (name : Name) (excl : Bool) :
    Except Panic (Vol × Except Errno ℕ) :=
  if Name.maxFnameLen < name.strlen then .ok (v, .error .tooBig)
  else if name = dot ∨ name = dotdot then .ok (v, .error .alreadyExists)
  else if v.removed d = true then .ok (v, .error .noEnt)
  else do
    match ← v.search (mem 0) d name with
    | (v, .failed err) => return (v, .error err)
    | (v, .found _ ino) => v.createFound mem ino excl
    | (v, .missing slot) => v.createMissing mem d slot name

/-- `sfs_mkdir_nolock`, once the inode of the directory is there. -/
def mkdirLink (mem : ℕ → Bool) (v : Vol) (d slot : ℕ) (name : Name) (ino : ℕ) :
    Except Panic (Vol × Option Errno) := do
  match ← v.direntLink (mem 3) d slot ino name with
  | (v, some err) =>
    if (v.din ino).nlinks ≠ 0 ∨ (v.cache ino).map Node.ref ≠ some 1 then throw .unlinkedNode
    else
      let v ← v.refDec ino
      return (v, some err)
  | (v, none) =>
    let v := ((v.setParent ino d).nlinksInc ino).nlinksInc d
    let v ← v.refDec ino
    return (v, none)

/-- `sfs_mkdir`. -/
def sfsMkdir (mem : ℕ → Bool) (v : Vol) (d : ℕ) (name : Name) : Except Panic (Vol × Option Errno) :=
  if Name.maxFnameLen < name.strlen then .ok (v, some .tooBig)
  else if name = dot ∨ name = dotdot then .ok (v, some .alreadyExists)
  else if v.removed d = true then .ok (v, some .noEnt)
  else do
    match ← v.search (mem 0) d name with
    | (v, .failed err) => return (v, some err)
    | (v, .found _ _) => return (v, some .alreadyExists)
    | (v, .missing slot) =>
      match ← v.createInode (mem 1) (mem 2) .dir with
      | (v, none) => return (v, some .noMem)
      | (v, some ino) => v.mkdirLink mem d slot name ino

/-- `sfs_link`. -/
def sfsLink (mem : ℕ → Bool) (v : Vol) (d : ℕ) (name : Name) (n : ℕ) : Except Panic (Vol × Option Errno) :=
  if Name.maxFnameLen < name.strlen then .ok (v, some .tooBig)
  else if name = dot ∨ name = dotdot then .ok (v, some .alreadyExists)
  else if (v.din n).type = .dir then .ok (v, some .isDir)
  else if v.removed d = true then .ok (v, some .noEnt)
  else do
    match ← v.search (mem 0) d name with
    | (v, .failed err) => return (v, some err)
    | (v, .found _ _) => return (v, some .alreadyExists)
    | (v, .missing slot) => v.direntLink (mem 1) d slot n name

/-- `sfs_unlink_nolock`, for a directory. -/
def rmdir (mem : ℕ → Bool) (v : Vol) (d slot n : ℕ) : Except Panic (Vol × Option Errno) :=
  if v.removed n = true then .ok (v, some .noEnt)
  else if n = d then .error .selfLock
  else if (v.din n).slots ≠ 0 then .ok (v, some .notEmpty)
  else do
    match ← v.direntUnlink (mem 3) d slot n with
    | (v, some err) => return (v, some err)
    | (v, none) =>
      let v := v.setNode n ((v.cache n).map fun node => { node with removed := true })
      let v ← v.nlinksDec n
      let v ← v.nlinksDec d
      return (v, none)

/-- `sfs_unlink_nolock`, once the inode has been loaded. -/
def unlinkLoaded (mem : ℕ → Bool) (v : Vol) (d slot n : ℕ) : Except Panic (Vol × Option Errno) :=
  if (v.din n).type = .dir then v.rmdir mem d slot n else v.direntUnlink (mem 3) d slot n

/-- `sfs_unlink`. -/
def sfsUnlink (mem : ℕ → Bool) (v : Vol) (d : ℕ) (name : Name) : Except Panic (Vol × Option Errno) :=
  if Name.maxFnameLen < name.strlen then .ok (v, some .tooBig)
  else if name = dot ∨ name = dotdot then .ok (v, some .isDir)
  else if v.removed d = true then .ok (v, some .noEnt)
  else do
    match ← v.search (mem 0) d name with
    | (v, .failed err) => return (v, some err)
    | (v, .missing _) => return (v, some .noEnt)
    | (v, .found slot n) =>
      match ← v.loadInode (mem 1) (mem 2) n with
      | (v, some err) => return (v, some err)
      | (v, none) =>
        let (v, err) ← v.unlinkLoaded mem d slot n
        let v ← v.refDec n
        return (v, err)

/-- `sfs_rename1_nolock`. -/
def rename1 (mem : ℕ → Bool) (v : Vol) (d : ℕ) (name newName : Name) : Except Panic (Vol × Option Errno) :=
  if name = newName then .ok (v, none)
  else do
    match ← v.search (mem 0) d name with
    | (v, .failed err) => return (v, some err)
    | (v, .missing _) => return (v, some .noEnt)
    | (v, .found slot ino) =>
      match ← v.search (mem 1) d newName with
      | (v, .failed err) => return (v, some err)
      | (v, .found _ _) => return (v, some .alreadyExists)
      | (v, .missing _) =>
        let (fs, sin, err) ← direntWrite (mem 2) v.fs (v.sin d) slot ⟨ino, newName⟩
        return (v.put d fs sin, err)

/-- `sfs_rename2_nolock`: the entry could not be written, and the old one is put back. -/
def moveBack (mem : ℕ → Bool) (v : Vol) (d slot n : ℕ) (name : Name) (isdir : Bool) : Except Panic Vol := do
  match ← v.direntLink (mem 6) d slot n name with
  | (v, some _) => return v
  | (v, none) => if isdir = true then return v.nlinksInc d else return v

/-- `sfs_rename2_nolock`: the entry is written into the new directory. -/
def moveTo (mem : ℕ → Bool) (v : Vol) (d slot : ℕ) (name : Name) (n d' slot' : ℕ) (newName : Name)
    (isdir : Bool) : Except Panic (Vol × Option Errno) := do
  match ← v.direntLink (mem 5) d' slot' n newName with
  | (v, some err) =>
    let v ← v.moveBack mem d slot n name isdir
    return (v, some err)
  | (v, none) =>
    if isdir = true then return ((v.nlinksInc d').setParent n d', none) else return (v, none)

/-- `sfs_rename2_nolock`, once the inode has been loaded. -/
def move (mem : ℕ → Bool) (v : Vol) (d slot : ℕ) (name : Name) (n d' slot' : ℕ) (newName : Name) :
    Except Panic (Vol × Option Errno) := do
  match ← v.direntUnlink (mem 4) d slot n with
  | (v, some err) => return (v, some err)
  | (v, none) =>
    if (v.din n).type = .dir then
      let v ← v.nlinksDec d
      v.moveTo mem d slot name n d' slot' newName true
    else v.moveTo mem d slot name n d' slot' newName false

/-- `sfs_rename2_nolock`. -/
def rename2 (mem : ℕ → Bool) (v : Vol) (d : ℕ) (name : Name) (d' : ℕ) (newName : Name) :
    Except Panic (Vol × Option Errno) := do
  match ← v.search (mem 0) d name with
  | (v, .failed err) => return (v, some err)
  | (v, .missing _) => return (v, some .noEnt)
  | (v, .found slot n) =>
    match ← v.search (mem 1) d' newName with
    | (v, .failed err) => return (v, some err)
    | (v, .found _ _) => return (v, some .alreadyExists)
    | (v, .missing slot') =>
      match ← v.loadInode (mem 2) (mem 3) n with
      | (v, some err) => return (v, some err)
      | (v, none) =>
        let (v, err) ← v.move mem d slot name n d' slot' newName
        let v ← v.refDec n
        return (v, err)

/-- `sfs_rename`. -/
def sfsRename (mem : ℕ → Bool) (v : Vol) (d : ℕ) (name : Name) (d' : ℕ) (newName : Name) :
    Except Panic (Vol × Option Errno) :=
  if Name.maxFnameLen < name.strlen ∨ Name.maxFnameLen < newName.strlen then .ok (v, some .tooBig)
  else if name = dot ∨ name = dotdot then .ok (v, some .inval)
  else if newName = dot ∨ newName = dotdot then .ok (v, some .alreadyExists)
  else if v.removed d = true then .ok (v, some .noEnt)
  else if d = d' then v.rename1 mem d name newName
  else if v.removed d' = true then .ok (v, some .noEnt)
  else v.rename2 mem d name d' newName

/-! ### Events -/

/-- An operation on the content of a file. -/
def fileOp (w : Width) (v : Vol) (n : ℕ) (op : FileOp) : Except Panic Vol :=
  if (v.din n).type = .dir then .ok v
  else do
    let (f, _) ← FileState.exec w ⟨v.fs, v.sin n⟩ op
    return v.put n f.fs f.sin

/-- What is done to a volume; the numbers are those of inodes to which the caller has a reference. -/
inductive Event where
  /-- `sfs_get_root` -/
  | getRoot (mem : ℕ → Bool)
  | lookup (mem : ℕ → Bool) (d : ℕ) (name : Name)
  | create (mem : ℕ → Bool) (d : ℕ) (name : Name) (excl : Bool)
  | mkdir (mem : ℕ → Bool) (d : ℕ) (name : Name)
  | link (mem : ℕ → Bool) (d : ℕ) (name : Name) (n : ℕ)
  | unlink (mem : ℕ → Bool) (d : ℕ) (name : Name)
  | rename (mem : ℕ → Bool) (d : ℕ) (name : Name) (d' : ℕ) (newName : Name)
  | file (n : ℕ) (op : FileOp)
  | fsync (n : ℕ)
  | refInc (n : ℕ)
  | refDec (n : ℕ)

/-- The caller has a reference to a directory. -/
def HasDir (v : Vol) (d : ℕ) : Prop := (v.cache d).isSome = true ∧ (v.din d).type = .dir

instance (v : Vol) (d : ℕ) : Decidable (v.HasDir d) := inferInstanceAs (Decidable (_ ∧ _))

/-- The volume after an event. A call that nobody can make, or that the table of the operations of a
file refuses, changes nothing. -/
def step (w : Width) (v : Vol) : Event → Except Panic Vol
  | .getRoot mem => Prod.fst <$> v.loadInode (mem 0) (mem 1) blknRoot
  | .lookup mem d name => if v.HasDir d then Prod.fst <$> v.sfsLookup mem d name else .ok v
  | .create mem d name excl => if v.HasDir d then Prod.fst <$> v.sfsCreate mem d name excl else .ok v
  | .mkdir mem d name => if v.HasDir d then Prod.fst <$> v.sfsMkdir mem d name else .ok v
  | .link mem d name n =>
    if v.HasDir d ∧ (v.cache n).isSome = true then Prod.fst <$> v.sfsLink mem d name n else .ok v
  | .unlink mem d name => if v.HasDir d then Prod.fst <$> v.sfsUnlink mem d name else .ok v
  | .rename mem d name d' newName =>
    if v.HasDir d ∧ v.HasDir d' then Prod.fst <$> v.sfsRename mem d name d' newName else .ok v
  | .file n op => if (v.cache n).isSome = true then v.fileOp w n op else .ok v
  | .fsync n => if (v.cache n).isSome = true then Prod.fst <$> v.fsync n else .ok v
  | .refInc n => .ok (v.refInc n)
  | .refDec n => v.refDec n

end Vol

end UcoreKernel.Sfs
