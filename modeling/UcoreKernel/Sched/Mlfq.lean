import UcoreKernel.Sched.Sched

/-!
The multi-level feedback queue on one CPU: `schedule/sched_MLFQ.c` over `schedule/sched_RR.c`, and the
functions of `schedule/sched.c` that move processes between the run queues and the CPU.

The run queues are `__rq[0]` to `__rq[3]`, in a ring. A process whose time slice is used up goes to the
next level when it is queued again, and every other one to the first level.

A process is linked into a run queue if its `run_link` is not empty, so that is membership in a list
here. The statistics of `schedule` (`sched_collect_info`) are left out.
-/

namespace UcoreKernel.Mlfq

open Function

open Sched (ProcId ProcState wtInterrupted)

/-- A run queue of the ring; `rq_link` leads from each to the next, and from the last to the first. -/
abbrev Level := Fin 4

/-- `lcpu_count`. -/
def lcpuCount : ℤ := 1

/-- The fields of `struct proc_struct` that the scheduler uses; `rq` is the level of its run queue. -/
structure Proc where
  state : ProcState
  pid : ℤ
  runs : ℕ
  needResched : Bool
  waitState : BitVec 32
  timeSlice : ℕ
  rq : Option Level
deriving DecidableEq

/-- `struct run_queue`. -/
structure RunQueue where
  runList : List ProcId
  procNum : ℕ
  maxTimeSlice : ℕ
deriving DecidableEq

/-- The scheduler. -/
structure State where
  rqs : Level → RunQueue
  procs : ProcId → Proc
  current : ProcId
  idleproc : ProcId

/-- The assertions that can fail. -/
inductive Panic where
  /-- `assert(list_empty(&(proc->run_link)))` -/
  | enqueueLinked
  /-- `assert(!list_empty(&(proc->run_link)))` -/
  | dequeueUnlinked
  /-- `assert(proc->rq == rq)` -/
  | dequeueQueue
  /-- `assert(proc->state != PROC_ZOMBIE)` -/
  | wakeZombie
  /-- `assert(proc->pid >= lcpu_count)` -/
  | wakePid
  /-- `assert(proc->wait_state & WT_INTERRUPTED)` -/
  | notInterruptible
  /-- `do_exit`: `panic("idleproc exit.\n")` -/
  | idleExit
deriving DecidableEq

/-- The assertions about what the scheduler is called for. The others are about its run queues. -/
def Panic.byCaller : Panic → Prop
  | enqueueLinked | dequeueUnlinked | dequeueQueue => False
  | wakeZombie | wakePid | notInterruptible | idleExit => True

/-- `alloc_proc`. -/
def allocProc : Proc := ⟨.uninit, -1, 0, false, 0, 0, none⟩

/-- `sched_init`, and the idle process of `proc_init`. -/
def schedInit (idleproc : ProcId) : State where
  rqs := fun i => ⟨[], 0, 8 * 2 ^ i.val⟩
  procs := update (fun _ => allocProc) idleproc
    { allocProc with state := .runnable, pid := 0, needResched := true }
  current := idleproc
  idleproc := idleproc

section Classes

variable (s : State) (proc : ProcId)

/-- `!list_empty(&(proc->run_link))`. -/
def linked : Prop := ∃ i, proc ∈ (s.rqs i).runList

instance : Decidable (linked s proc) := inferInstanceAs (Decidable (∃ _, _))

/-- The fields of one process replaced. -/
def State.setProc (p : Proc) : State := { s with procs := update s.procs proc p }

/-- `RR_enqueue`. -/
def rrEnqueue (rq : Level) : Except Panic State :=
  if linked s proc then .error .enqueueLinked
  else
    let q := s.rqs rq
    let p := s.procs proc
    let timeSlice :=
      if p.timeSlice = 0 ∨ p.timeSlice > q.maxTimeSlice then q.maxTimeSlice else p.timeSlice
    .ok { s.setProc proc { p with timeSlice := timeSlice, rq := some rq } with
      rqs := update s.rqs rq
        { q with runList := q.runList ++ [proc], procNum := q.procNum + 1 } }

/-- `RR_dequeue`: the process leaves the list it is in, and its run queue counts down. -/
def rrDequeue (rq : Level) : Except Panic State :=
  if ¬linked s proc then .error .dequeueUnlinked
  else if (s.procs proc).rq ≠ some rq then .error .dequeueQueue
  else
    let rqs := fun i => { s.rqs i with runList := (s.rqs i).runList.erase proc }
    .ok { s with
      rqs := update rqs rq { rqs rq with procNum := (s.rqs rq).procNum - 1 } }

/-- `RR_pick_next`. -/
def rrPickNext (rq : Level) : Option ProcId := (s.rqs rq).runList.head?

/-- `RR_proc_tick`. -/
def rrProcTick (p : Proc) : Proc :=
  let timeSlice := if p.timeSlice > 0 then p.timeSlice - 1 else p.timeSlice
  { p with timeSlice := timeSlice, needResched := if timeSlice = 0 then true else p.needResched }

/-- `MLFQ_enqueue`; the scheduler passes the first run queue. -/
def mlfqEnqueue : Except Panic State :=
  if linked s proc then .error .enqueueLinked
  else
    let p := s.procs proc
    let nrq := match p.rq with
      | some rq => if p.timeSlice = 0 then (if rq + 1 = 0 then rq else rq + 1) else 0
      | none => 0
    rrEnqueue s proc nrq

/-- `MLFQ_dequeue`. -/
def mlfqDequeue : Except Panic State :=
  if ¬linked s proc then .error .dequeueUnlinked
  else match (s.procs proc).rq with
    | none => .error .dequeueQueue
    | some rq => rrDequeue s proc rq

/-- The loop of `MLFQ_pick_next` around the ring, with the run queues that are left. -/
def pickNextLoop : ℕ → Level → Option ProcId
  | 0, _ => none
  | left + 1, rq =>
    match rrPickNext s rq with
    | some next => some next
    | none => pickNextLoop left (rq + 1)

/-- `MLFQ_pick_next`. -/
def mlfqPickNext : Option ProcId := pickNextLoop s 4 0

/-- `sched_class_enqueue`. -/
def schedClassEnqueue : Except Panic State :=
  if proc ≠ s.idleproc then mlfqEnqueue s proc else .ok s

/-- `sched_class_proc_tick`. -/
def schedClassProcTick : State :=
  if proc ≠ s.idleproc then s.setProc proc (rrProcTick (s.procs proc))
  else s.setProc proc { s.procs proc with needResched := true }

/-! ### The core -/

/-- `wakeup_proc`. -/
def wakeupProc : Except Panic State :=
  if (s.procs proc).state = .zombie then .error .wakeZombie
  else if (s.procs proc).state ≠ .runnable then
    let s := s.setProc proc { s.procs proc with state := .runnable, waitState := 0 }
    if proc ≠ s.current then
      if (s.procs proc).pid < lcpuCount then .error .wakePid else schedClassEnqueue s proc
    else .ok s
  else .ok s

/-- The current process goes back to its run queue, if it can run on. -/
def putBack : Except Panic State :=
  let s := s.setProc s.current { s.procs s.current with needResched := false }
  if (s.procs s.current).state = .runnable ∧ (s.procs s.current).pid ≥ lcpuCount then
    schedClassEnqueue s s.current
  else .ok s

/-- The process gets the CPU. -/
def procRun : State :=
  { s.setProc proc { s.procs proc with runs := (s.procs proc).runs + 1 } with current := proc }

/-- The next process leaves its run queue and runs; without one, the idle process runs. -/
def runNext : Except Panic State :=
  match mlfqPickNext s with
  | some next => do
      let s ← mlfqDequeue s next
      return procRun s next
  | none => .ok (procRun s s.idleproc)

/-- `schedule`. -/
def schedule : Except Panic State := do
  let s ← putBack s
  runNext s

/-- The timers that expire in `run_timer_list`, with their processes. -/
def expireLoop (s : State) : List ProcId → Except Panic State
  | [] => .ok s
  | proc :: rest =>
    if (s.procs proc).waitState ≠ 0 ∧ (s.procs proc).waitState &&& wtInterrupted = 0 then
      .error .notInterruptible
    else wakeupProc s proc >>= fun s => expireLoop s rest

/-- `run_timer_list`, on the processes of the timers that expire. -/
def runTimerList (expired : List ProcId) : Except Panic State := do
  let s ← expireLoop s expired
  return schedClassProcTick s s.current

/-- The part of `do_fork` that the scheduler sees: half of the time slice goes to the child. -/
def fork (pid : ℤ) : State :=
  let p := s.procs s.current
  let half := p.timeSlice / 2
  (s.setProc s.current { p with timeSlice := p.timeSlice - half }).setProc proc
    { allocProc with pid := pid, timeSlice := half }

end Classes

/-! ### Runs -/

/-- What happens to the processes. -/
inductive Event where
  /-- The current process makes the process `proc`, with the pid that `get_pid` returns. -/
  | fork (proc : ProcId) (pid : ℤ)
  /-- A process is woken up. -/
  | wakeup (proc : ProcId)
  /-- `schedule` is called. -/
  | schedule
  /-- A timer tick, at which the timers of some processes expire. -/
  | tick (expired : List ProcId)
  /-- The current process goes to sleep; it calls `schedule` later. -/
  | sleep (waitState : BitVec 32)
  /-- The current process becomes a zombie; it calls `schedule` later. -/
  | exit

/-- Memory that `alloc_proc` can return: no process that lives uses it. -/
def State.Fresh (s : State) (proc : ProcId) : Prop :=
  proc ≠ s.current ∧ proc ≠ s.idleproc ∧
    ((s.procs proc).state = .uninit ∨ (s.procs proc).state = .zombie)

instance (s : State) (proc : ProcId) : Decidable (s.Fresh proc) :=
  inferInstanceAs (Decidable (_ ∧ _))

/-- The current process in another state. -/
def State.setState (s : State) (state : ProcState) (waitState : BitVec 32) : State :=
  s.setProc s.current { s.procs s.current with state := state, waitState := waitState }

/-- One step. -/
def step (s : State) : Event → Except Panic State
  | .fork proc pid => if s.Fresh proc then .ok (fork s proc pid) else .ok s
  | .wakeup proc => wakeupProc s proc
  | .schedule => schedule s
  | .tick expired => runTimerList s expired
  | .sleep waitState => .ok (s.setState .sleeping waitState)
  | .exit =>
    if s.current = s.idleproc then .error .idleExit
    else .ok (s.setState .zombie (s.procs s.current).waitState)

/-- A run of steps. -/
def run (s : State) : List Event → Except Panic State
  | [] => .ok s
  | e :: es => step s e >>= fun s => run s es

end UcoreKernel.Mlfq
