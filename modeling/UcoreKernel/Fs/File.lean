import Mathlib.Tactic

/-!
The table of open files that the threads of a group share, `fs/file.c`.

A call of the file system can sleep, and other threads use the table meanwhile. An operation that is
suspended is a `Pc`: what it has done to the table so far is done, and what it will do is known from the
`Pc`. The table keeps the operations that are under way in `running`, whoever's they are.

`vfs_open` and `pipe_open` hand over an inode with one open count and one reference; what they do
inside is not modelled.
-/

namespace UcoreKernel.FileTable

open Function

/-- The address of a `struct inode`. -/
abbrev Inode := ℕ

/-- The status of a slot. -/
inductive Status where
  | none
  | init
  | opened
  | closed
deriving DecidableEq

/-- `struct file`. -/
structure File where
  status : Status
  readable : Bool
  writable : Bool
  fd : ℕ
  pos : ℤ
  node : Option Inode
  openCount : ℕ
deriving DecidableEq

/-- The operations that use an open slot while they are under way. -/
inductive Op where
  | read
  | write
  | seek
  | fstat
  | fsync
  | getdirentry
deriving DecidableEq

/-- An operation that is suspended. -/
inductive Pc where
  /-- `file_open` in `vfs_open`. -/
  | opening (fd : ℕ) (readable writable append : Bool)
  /-- `file_open` in `vop_fstat`, which `O_APPEND` takes. -/
  | stating (fd : ℕ) (readable writable : Bool) (node : Inode)
  /-- `file_open` in `vfs_close` after that failed: behind `vop_open_dec`, or behind `vop_ref_dec`. -/
  | dropping (fd : ℕ) (node : Inode) (refDone : Bool)
  /-- An operation between `filemap_acquire` and `filemap_release`. -/
  | busy (fd : ℕ) (op : Op)
  /-- `filemap_free` in `vfs_close`: behind `vop_open_dec`, or behind `vop_ref_dec`. -/
  | closing (fd : ℕ) (node : Inode) (refDone : Bool)
  /-- `file_pipe` in `pipe_open`. -/
  | piping (fd₀ fd₁ : ℕ)
deriving DecidableEq

/-- The table. The last two fields count, for a slot and an inode, how often the slot was opened with
the inode, and how often `filemap_free` has called `vfs_close` for it. -/
structure Table where
  filemap : ℕ → File
  inodeOpen : Inode → ℕ
  inodeRef : Inode → ℕ
  running : List Pc
  held : ℕ → Inode → ℕ
  vfsClosed : ℕ → Inode → ℕ

/-- The assertions that can fail. -/
inductive Panic where
  | allocCount
  | freeStatus
  | freeCount
  | acquireStatus
  | releaseStatus
  | releaseCount
  | openStatus
  | closeStatus
  | closeCount
  | dupStatus
  | nullNode
  | inodeOpenCount
  | inodeRefCount
deriving DecidableEq

/-- The error codes. -/
inductive Errno where
  | maxOpen
  | busy
  | inval
  | vfs
deriving DecidableEq

/-- One more for a slot and an inode. -/
def bump (count : ℕ → Inode → ℕ) (fd : ℕ) (node : Inode) : ℕ → Inode → ℕ :=
  update count fd (update (count fd) node (count fd node + 1))

namespace Table

/-- A slot is written. -/
def setFile (t : Table) (fd : ℕ) (file : File) : Table :=
  { t with filemap := update t.filemap fd file }

/-- An operation is suspended. -/
def push (t : Table) (pc : Pc) : Table := { t with running := pc :: t.running }

/-- A suspended operation runs again. -/
def pop (t : Table) (pc : Pc) : Table := { t with running := t.running.erase pc }

/-- `vop_ref_inc` and `vop_open_inc`, also inside `vfs_open` and `pipe_open`. -/
def inodeInc (t : Table) (node : Inode) : Table :=
  { t with
    inodeOpen := update t.inodeOpen node (t.inodeOpen node + 1)
    inodeRef := update t.inodeRef node (t.inodeRef node + 1) }

end Table

/-- `filemap_init`. -/
def filemapInit : Table where
  filemap := fun fd => ⟨.none, false, false, fd, 0, none, 0⟩
  inodeOpen := fun _ => 0
  inodeRef := fun _ => 0
  running := []
  held := fun _ _ => 0
  vfsClosed := fun _ _ => 0

section Slots

-- `FS_STRUCT_NENTRY`
variable (N : ℕ) (t : Table)

/-- `vop_open_dec`. -/
def inodeOpenDec (node : Inode) : Except Panic Table :=
  if t.inodeOpen node = 0 then .error .inodeOpenCount
  else .ok { t with inodeOpen := update t.inodeOpen node (t.inodeOpen node - 1) }

/-- `vop_ref_dec`. -/
def inodeRefDec (node : Inode) : Except Panic Table :=
  if t.inodeRef node = 0 then .error .inodeRefCount
  else .ok { t with inodeRef := update t.inodeRef node (t.inodeRef node - 1) }

/-- The slot that `filemap_alloc` hands out; `none` is `NO_FD`. -/
def findSlot (fd : Option ℤ) : Except Errno ℕ :=
  match fd with
  | none =>
    match (List.range N).find? fun fd => (t.filemap fd).status = .none with
    | some fd => .ok fd
    | none => .error .maxOpen
  | some fd =>
    if 0 ≤ fd ∧ fd < N then
      if (t.filemap fd.toNat).status = .none then .ok fd.toNat else .error .busy
    else .error .inval

/-- `filemap_alloc`, on the slot it has found. -/
def filemapAlloc (fd : ℕ) : Except Panic Table :=
  if (t.filemap fd).openCount ≠ 0 then .error .allocCount
  else .ok (t.setFile fd { t.filemap fd with status := .init, node := none })

/-- `filemap_free`. A slot that was open is free when `vfs_close` is done. -/
def filemapFree (fd : ℕ) : Except Panic Table :=
  let file := t.filemap fd
  if ¬(file.status = .init ∨ file.status = .closed) then .error .freeStatus
  else if file.openCount ≠ 0 then .error .freeCount
  else if file.status = .closed then
    match file.node with
    | none => .error .nullNode
    | some node => do
        let t ← inodeOpenDec t node
        return { t.push (.closing fd node false) with vfsClosed := bump t.vfsClosed fd node }
  else .ok (t.setFile fd { file with status := .none })

/-- `filemap_acquire`. -/
def filemapAcquire (fd : ℕ) : Except Panic Table :=
  let file := t.filemap fd
  if file.status ≠ .opened then .error .acquireStatus
  else .ok (t.setFile fd { file with openCount := file.openCount + 1 })

/-- `filemap_release`. -/
def filemapRelease (fd : ℕ) : Except Panic Table :=
  let file := t.filemap fd
  if ¬(file.status = .opened ∨ file.status = .closed) then .error .releaseStatus
  else if file.openCount = 0 then .error .releaseCount
  else
    let t := t.setFile fd { file with openCount := file.openCount - 1 }
    if file.openCount - 1 = 0 then filemapFree t fd else .ok t

/-- `filemap_open`. -/
def filemapOpen (fd : ℕ) : Except Panic Table :=
  let file := t.filemap fd
  if file.status ≠ .init then .error .openStatus
  else match file.node with
    | none => .error .nullNode
    | some node => .ok { t.setFile fd { file with
        status := .opened, openCount := file.openCount + 1 } with held := bump t.held fd node }

/-- `filemap_close`. -/
def filemapClose (fd : ℕ) : Except Panic Table :=
  let file := t.filemap fd
  if file.status ≠ .opened then .error .closeStatus
  else if file.openCount = 0 then .error .closeCount
  else
    let t := t.setFile fd { file with status := .closed, openCount := file.openCount - 1 }
    if file.openCount - 1 = 0 then filemapFree t fd else .ok t

/-- `filemap_dup`. -/
def filemapDup (dest source : ℕ) : Except Panic Table :=
  let file := t.filemap source
  if ¬((t.filemap dest).status = .init ∧ file.status = .opened) then .error .dupStatus
  else match file.node with
    | none => .error .nullNode
    | some node =>
      filemapOpen ((t.inodeInc node).setFile dest { t.filemap dest with
        pos := file.pos, readable := file.readable, writable := file.writable,
        node := some node }) dest

/-- `fd2file`. -/
def fd2file (fd : ℤ) : Option ℕ :=
  if 0 ≤ fd ∧ fd < N then
    if (t.filemap fd.toNat).status = .opened ∧ (t.filemap fd.toNat).fd = fd then some fd.toNat
    else none
  else none

end Slots

/-! ### The calls -/

/-- `open_flags & O_ACCMODE`. -/
inductive AccMode where
  | rdonly
  | wronly
  | rdwr
  | bad
deriving DecidableEq

/-- What an operation comes back with. -/
inductive Outcome where
  /-- `vop_read` or `vop_write` moved so many bytes. -/
  | copied (n : ℕ)
  /-- `vop_tryseek` accepted the position. -/
  | seeked (pos : ℤ)
  /-- Anything else. -/
  | other
deriving DecidableEq

section Calls

variable (N : ℕ) (t : Table)

/-- The readable and writable bits of a mode. -/
def AccMode.bits : AccMode → Option (Bool × Bool)
  | .rdonly => some (true, false)
  | .wronly => some (false, true)
  | .rdwr => some (true, true)
  | .bad => none

/-- `file_open` up to the call of `vfs_open`. -/
def fileOpen (mode : AccMode) (append : Bool) : Except Panic (Table × Option Errno) :=
  match mode.bits with
  | none => .ok (t, some .inval)
  | some (readable, writable) =>
    match findSlot N t none with
    | .error e => .ok (t, some e)
    | .ok fd => do
        let t ← filemapAlloc t fd
        return (t.push (.opening fd readable writable append), none)

/-- The end of `file_open`: the slot gets its inode and opens. -/
def fileOpened (fd : ℕ) (readable writable : Bool) (pos : ℤ) (node : Inode) : Except Panic Table :=
  filemapOpen (t.setFile fd { t.filemap fd with
    pos := pos, node := some node, readable := readable, writable := writable }) fd

/-- `file_open` when `vfs_open` returns; `none` is an error. -/
def vfsOpened (fd : ℕ) (readable writable append : Bool) (result : Option Inode) : Except Panic Table :=
  let t := t.pop (.opening fd readable writable append)
  match result with
  | none => filemapFree t fd
  | some node =>
    let t := t.inodeInc node
    if append then .ok (t.push (.stating fd readable writable node))
    else fileOpened t fd readable writable 0 node

/-- `file_open` when `vop_fstat` returns the size; `none` is an error. -/
def stated (fd : ℕ) (readable writable : Bool) (node : Inode) (result : Option ℤ) : Except Panic Table :=
  let t := t.pop (.stating fd readable writable node)
  match result with
  | none => do
      let t ← inodeOpenDec t node
      return t.push (.dropping fd node false)
  | some size => fileOpened t fd readable writable size node

/-- The rest of `vfs_close` in a `file_open` that failed. -/
def dropStep (fd : ℕ) (node : Inode) (refDone : Bool) : Except Panic Table :=
  let t := t.pop (.dropping fd node refDone)
  if refDone then filemapFree t fd
  else do
    let t ← inodeRefDec t node
    return t.push (.dropping fd node true)

/-- The rest of `vfs_close` in `filemap_free`, and the last line of that. -/
def closeStep (fd : ℕ) (node : Inode) (refDone : Bool) : Except Panic Table :=
  let t := t.pop (.closing fd node refDone)
  if refDone then .ok (t.setFile fd { t.filemap fd with status := .none })
  else do
    let t ← inodeRefDec t node
    return t.push (.closing fd node true)

/-- `file_close`. -/
def fileClose (fd : ℤ) : Except Panic (Table × Option Errno) :=
  match fd2file N t fd with
  | none => .ok (t, some .inval)
  | some fd => do
      let t ← filemapClose t fd
      return (t, none)

/-- `file_read`, `file_write`, `file_seek` and the like up to the call of the file system. -/
def fileStart (fd : ℤ) (op : Op) : Except Panic (Table × Option Errno) :=
  match fd2file N t fd with
  | none => .ok (t, some .inval)
  | some fd =>
    if op = .read ∧ ¬(t.filemap fd).readable ∨ op = .write ∧ ¬(t.filemap fd).writable then
      .ok (t, some .inval)
    else do
      let t ← filemapAcquire t fd
      return (t.push (.busy fd op), none)

/-- The position after an operation. -/
def newPos (file : File) (op : Op) (outcome : Outcome) : ℤ :=
  match op, outcome with
  | .read, .copied n | .write, .copied n => if file.status = .opened then file.pos + n else file.pos
  | .seek, .seeked pos => pos
  | _, _ => file.pos

/-- The rest of these. -/
def fileFinish (fd : ℕ) (op : Op) (outcome : Outcome) : Except Panic Table :=
  let t := t.pop (.busy fd op)
  filemapRelease (t.setFile fd { t.filemap fd with pos := newPos (t.filemap fd) op outcome }) fd

/-- `file_dup`. -/
def fileDup (fd₁ : ℤ) (fd₂ : Option ℤ) : Except Panic (Table × Option Errno) :=
  match fd2file N t fd₁ with
  | none => .ok (t, some .inval)
  | some file₁ =>
    match findSlot N t fd₂ with
    | .error e => .ok (t, some e)
    | .ok file₂ => do
        let t ← filemapAlloc t file₂
        let t ← filemapDup t file₂ file₁
        return (t, none)

/-- `file_pipe` up to the call of `pipe_open`. -/
def filePipe : Except Panic (Table × Option Errno) :=
  match findSlot N t none with
  | .error e => .ok (t, some e)
  | .ok fd₀ => do
      let t ← filemapAlloc t fd₀
      match findSlot N t none with
      | .error e => do
          let t ← filemapFree t fd₀
          return (t, some e)
      | .ok fd₁ => do
          let t ← filemapAlloc t fd₁
          return (t.push (.piping fd₀ fd₁), none)

/-- `file_pipe` when `pipe_open` returns; `none` is an error. -/
def piped (fd₀ fd₁ : ℕ) (result : Option (Inode × Inode)) : Except Panic Table :=
  let t := t.pop (.piping fd₀ fd₁)
  match result with
  | none => do
      let t ← filemapFree t fd₀
      filemapFree t fd₁
  | some (node₀, node₁) => do
      let t ← fileOpened (t.inodeInc node₀) fd₀ true false 0 node₀
      fileOpened (t.inodeInc node₁) fd₁ false true 0 node₁

end Calls

/-! ### Runs -/

/-- What the threads do. -/
inductive Event where
  | openFile (mode : AccMode) (append : Bool)
  | vfsOpened (fd : ℕ) (readable writable append : Bool) (result : Option Inode)
  | stated (fd : ℕ) (readable writable : Bool) (node : Inode) (result : Option ℤ)
  | dropStep (fd : ℕ) (node : Inode) (refDone : Bool)
  | closeStep (fd : ℕ) (node : Inode) (refDone : Bool)
  | close (fd : ℤ)
  | start (fd : ℤ) (op : Op)
  | finish (fd : ℕ) (op : Op) (outcome : Outcome)
  | dup (fd₁ : ℤ) (fd₂ : Option ℤ)
  | pipe
  | piped (fd₀ fd₁ : ℕ) (result : Option (Inode × Inode))

/-- One step. The continuation of an operation that is not under way changes nothing. -/
def step (N : ℕ) (t : Table) : Event → Except Panic Table
  | .openFile mode append => Prod.fst <$> fileOpen N t mode append
  | .vfsOpened fd readable writable append result =>
    if .opening fd readable writable append ∈ t.running then
      vfsOpened t fd readable writable append result
    else .ok t
  | .stated fd readable writable node result =>
    if .stating fd readable writable node ∈ t.running then stated t fd readable writable node result
    else .ok t
  | .dropStep fd node refDone =>
    if .dropping fd node refDone ∈ t.running then dropStep t fd node refDone else .ok t
  | .closeStep fd node refDone =>
    if .closing fd node refDone ∈ t.running then closeStep t fd node refDone else .ok t
  | .close fd => Prod.fst <$> fileClose N t fd
  | .start fd op => Prod.fst <$> fileStart N t fd op
  | .finish fd op outcome => if .busy fd op ∈ t.running then fileFinish t fd op outcome else .ok t
  | .dup fd₁ fd₂ => Prod.fst <$> fileDup N t fd₁ fd₂
  | .pipe => Prod.fst <$> filePipe N t
  | .piped fd₀ fd₁ result => if .piping fd₀ fd₁ ∈ t.running then piped t fd₀ fd₁ result else .ok t

/-- A run of steps. -/
def run (N : ℕ) (t : Table) : List Event → Except Panic Table
  | [] => .ok t
  | e :: es => step N t e >>= fun t => run N t es

end UcoreKernel.FileTable
