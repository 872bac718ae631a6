import Mathlib.Tactic

/-!
`kern-ucore/fs/pipe/pipe_state.c`: the ring buffer behind a pipe, and the processes that read
and write it.

The section of `pipe_state_read` and `pipe_state_write` that runs under the semaphore of the
pipe is one step here. Between two sections a process can be suspended at every point where the
source lets another process run: before it takes the semaphore, after it has released it and
before it is in the wait queue, and while it sleeps. A sleeping process is woken by the other
side, by `pipe_state_close`, or by a kill, and finds out by whom from `wakeup_flags`.
-/

namespace UcoreKernel.Pipe

/-- The constants the code depends on: the width of `off_t` and `size_t`, the page size, and the
size of `struct pipe_state`, with `static_assert((int)PIPE_BUFSIZE > 128)`. -/
structure PipeArch where
  width : ℕ
  pgsize : ℕ
  sizeofPipeState : ℕ
  width_ge : 32 ≤ width
  pgsize_lt : pgsize < 2 ^ 31
  bufsize_gt : 128 < pgsize - sizeofPipeState

/-- `PIPE_BUFSIZE`. -/
def PipeArch.bufsize (A : PipeArch) : ℕ := A.pgsize - A.sizeofPipeState

/-- Identity of a process. -/
abbrev ProcId := ℕ

/-- `WT_INTERRUPTED`. -/
def wtInterrupted : BitVec 32 := 0x80000000#32

/-- `WT_PIPE`. -/
def wtPipe : BitVec 32 := 0x80000200#32

/-- `struct pipe_state`. The wait queues list the sleeping processes; the semaphore and the
reference count are left out, since a section is one step and the pipe lives throughout. -/
structure PipeState (A : PipeArch) where
  pRpos : BitVec A.width
  pWpos : BitVec A.width
  buf : ℕ → UInt8
  isclosed : Bool
  readerQueue : List ProcId
  writerQueue : List ProcId

variable {A : PipeArch}

/-- `pipe_state_create`; the buffer holds whatever the memory held. -/
def pipeStateCreate (buf : ℕ → UInt8) : PipeState A := ⟨0, 0, buf, false, [], []⟩

/-- `is_empty`. -/
def isEmpty (st : PipeState A) : Bool := st.pRpos == st.pWpos

/-- `is_full`: the difference is compared as a `size_t`. -/
def isFull (st : PipeState A) : Bool := A.bufsize ≤ (st.pWpos - st.pRpos).toNat

/-- The copying loop of `pipe_state_read`, with room for `n` more bytes. -/
def readLoop : ℕ → PipeState A → PipeState A × List UInt8
  | 0, st => (st, [])
  | n + 1, st =>
    if isEmpty st then (st, [])
    else
      let r := readLoop n { st with pRpos := st.pRpos + 1 }
      (r.1, st.buf (st.pRpos.toNat % A.bufsize) :: r.2)

/-- The body of the loop of `pipe_state_write`: one byte is stored and the position advances. -/
def storeByte (st : PipeState A) (b : UInt8) : PipeState A :=
  { st with
    buf := Function.update st.buf (st.pWpos.toNat % A.bufsize) b
    pWpos := st.pWpos + 1 }

/-- The copying loop of `pipe_state_write`: the bytes that found no room are returned. -/
def writeLoop : List UInt8 → PipeState A → PipeState A × List UInt8
  | [], st => (st, [])
  | b :: bs, st =>
    if isFull st then (st, b :: bs) else writeLoop bs (storeByte st b)

/-! ### Processes -/

/-- A call in progress, with what is left of it. -/
inductive Call where
  | read (n : ℕ)
  | write (todo : List UInt8)
  deriving DecidableEq, Repr

/-- Where a process stands in its call. -/
inductive Pc where
  /-- at `try_again`, about to take the semaphore -/
  | lock
  /-- the semaphore is released, the process is not in the wait queue yet -/
  | prepare
  /-- in the wait queue and asleep -/
  | sleeping
  /-- awake again, with the value of `wait->wakeup_flags` -/
  | woken (flags : BitVec 32)
  deriving DecidableEq, Repr

/-- A process inside a call. -/
structure PipeProc where
  call : Call
  pc : Pc
  deriving DecidableEq, Repr

/-- The processes of a pipe; a process outside any call is absent. -/
abbrev Procs := ProcId → Option PipeProc

/-- `wakeup_queue (queue, WT_PIPE, 1)` on the processes of `queue`. -/
def wakeupQueue (procs : Procs) (queue : List ProcId) : Procs := fun p =>
  if p ∈ queue then (procs p).map fun x => { x with pc := .woken wtPipe } else procs p

/-- A pipe and its processes. -/
structure Config (A : PipeArch) where
  st : PipeState A
  procs : Procs

/-- `wakeup_reader`. -/
def wakeupReader (c : Config A) : Config A :=
  ⟨{ c.st with readerQueue := [] }, wakeupQueue c.procs c.st.readerQueue⟩

/-- `wakeup_writer`. -/
def wakeupWriter (c : Config A) : Config A :=
  ⟨{ c.st with writerQueue := [] }, wakeupQueue c.procs c.st.writerQueue⟩

/-- The process `p` set to `x`. -/
def Config.setProc (c : Config A) (p : ProcId) (x : Option PipeProc) : Config A :=
  { c with procs := Function.update c.procs p x }

/-- What a step shows to the outside. -/
inductive Event where
  | silent
  /-- the write of `p` has stored these bytes in its section -/
  | accepted (p : ProcId) (bytes : List UInt8)
  /-- the read of `p`, of at most `n` bytes, returns these bytes from its section -/
  | returned (p : ProcId) (n : ℕ) (bytes : List UInt8)
  /-- the wait of `p` was interrupted by a kill, and the call returns what it has so far -/
  | interrupted (p : ProcId)
  deriving DecidableEq, Repr

/-- `pipe_state_read` under the semaphore. -/
def readSection (c : Config A) (p : ProcId) (n : ℕ) : Config A × Event :=
  if isEmpty c.st then
    if c.st.isclosed then (c.setProc p none, .returned p n [])
    else (c.setProc p (some ⟨.read n, .prepare⟩), .silent)
  else
    let r := readLoop n c.st
    let c' : Config A := { c with st := r.1 }
    ((if r.2 = [] then c' else wakeupWriter c').setProc p none, .returned p n r.2)

/-- `pipe_state_write` under the semaphore. -/
def writeSection (c : Config A) (p : ProcId) (todo : List UInt8) : Config A × Event :=
  if c.st.isclosed then (c.setProc p none, .accepted p [])
  else
    let r := writeLoop todo c.st
    let c' : Config A := { c with st := r.1 }
    let taken := todo.take (todo.length - r.2.length)
    if r.2 = [] then
      ((if taken = [] then c' else wakeupReader c').setProc p none, .accepted p taken)
    else ((wakeupReader c').setProc p (some ⟨.write r.2, .prepare⟩), .accepted p taken)

/-- `wait_current_set` of the wait that `p` is about to make: a reader waits in the reader queue
(`wait_writer`), a writer in the writer queue (`wait_reader`). -/
def enterQueue (c : Config A) (p : ProcId) (call : Call) : Config A :=
  let st := match call with
    | .read _ => { c.st with readerQueue := c.st.readerQueue ++ [p] }
    | .write _ => { c.st with writerQueue := c.st.writerQueue ++ [p] }
  ({ c with st := st } : Config A).setProc p (some ⟨call, .sleeping⟩)

/-- The end of `pipe_state_wait`: `wait_current_del`, then back to `try_again` if the wait was
ended by the pipe, and out of the call if not. -/
def leaveQueue (c : Config A) (p : ProcId) (call : Call) (flags : BitVec 32) : Config A × Event :=
  let st := match call with
    | .read _ => { c.st with readerQueue := c.st.readerQueue.erase p }
    | .write _ => { c.st with writerQueue := c.st.writerQueue.erase p }
  if flags = wtPipe then
    (({ c with st := st } : Config A).setProc p (some ⟨call, .lock⟩), .silent)
  else (({ c with st := st } : Config A).setProc p none, .interrupted p)

/-- `pipe_state_close`. -/
def pipeStateClose (c : Config A) : Config A :=
  wakeupWriter (wakeupReader { c with st := { c.st with isclosed := true } })

/-! ### Interleavings -/

/-- The next thing that happens. -/
inductive Action where
  | readCall (p : ProcId) (n : ℕ)
  | writeCall (p : ProcId) (bytes : List UInt8)
  | enter (p : ProcId)
  | prepare (p : ProcId)
  | kill (p : ProcId)
  | resume (p : ProcId)
  | close
  deriving DecidableEq, Repr

/-- One step; an action that is not possible in the configuration gives `none`. -/
def step (c : Config A) : Action → Option (Config A × Event)
  | .readCall p n =>
    match c.procs p with
    | none => some (c.setProc p (some ⟨.read n, .lock⟩), .silent)
    | some _ => none
  | .writeCall p bytes =>
    match c.procs p with
    | none => some (c.setProc p (some ⟨.write bytes, .lock⟩), .silent)
    | some _ => none
  | .enter p =>
    match c.procs p with
    | some ⟨.read n, .lock⟩ => some (readSection c p n)
    | some ⟨.write todo, .lock⟩ => some (writeSection c p todo)
    | _ => none
  | .prepare p =>
    match c.procs p with
    | some ⟨call, .prepare⟩ => some (enterQueue c p call, .silent)
    | _ => none
  | .kill p =>
    match c.procs p with
    | some ⟨call, .sleeping⟩ =>
      some (c.setProc p (some ⟨call, .woken wtInterrupted⟩), .silent)
    | _ => none
  | .resume p =>
    match c.procs p with
    | some ⟨call, .woken flags⟩ => some (leaveQueue c p call flags)
    | _ => none
  | .close => some (pipeStateClose c, .silent)

/-- An interleaving, with what each step shows. -/
def run (c : Config A) : List Action → Option (Config A × List Event)
  | [] => some (c, [])
  | a :: as => do
      let r ← step c a
      let rs ← run r.1 as
      return (rs.1, r.2 :: rs.2)

/-- The bytes accepted from the writes, in the order their sections ran. -/
def acceptedBytes : List Event → List UInt8
  | [] => []
  | .accepted _ bytes :: es => bytes ++ acceptedBytes es
  | _ :: es => acceptedBytes es

/-- The bytes returned by the reads, in the order their sections ran. -/
def returnedBytes : List Event → List UInt8
  | [] => []
  | .returned _ _ bytes :: es => bytes ++ returnedBytes es
  | _ :: es => returnedBytes es

end UcoreKernel.Pipe
