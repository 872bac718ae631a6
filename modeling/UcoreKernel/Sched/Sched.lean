import Mathlib.Tactic

/-!
`kern-ucore/schedule/sched.c`: waking processes and the timer list.

`timer_list` is a circular list of `timer_t`, each of which stores in `expires` the number of
ticks between its predecessor and itself. The list is kept here as the sequence of the timers'
identities, with the fields of the timers beside it, so that `list_empty (&timer->timer_link)`
says that a timer does not occur in the sequence. The scheduling class is a table of function
pointers in the source and a parameter here. A failed assertion ends a run, and `Panic` names
the assertion.
-/

namespace UcoreKernel.Sched

open Function

/-- `enum proc_state`. -/
inductive ProcState where
  | uninit
  | sleeping
  | runnable
  | zombie
  deriving DecidableEq, Repr

/-- Identity of a `struct proc_struct`. -/
abbrev ProcId := ℕ

/-- Identity of a `timer_t`. -/
abbrev TimerId := ℕ

/-- The fields of `struct proc_struct` that waking a process and ticking read or write. -/
structure ProcStruct where
  state : ProcState
  pid : ℕ
  needResched : Bool
  waitState : BitVec 32
  timeSlice : ℕ
  deriving DecidableEq, Repr

/-- `WT_INTERRUPTED`: the wait can be interrupted. -/
def wtInterrupted : BitVec 32 := 0x80000000#32

/-- `timer_t`; `expires` is an `unsigned int`. -/
structure Timer where
  expires : BitVec 32
  proc : Option ProcId
  deriving DecidableEq, Repr

/-- The assertions of `wakeup_proc`, `add_timer` and `run_timer_list`. -/
inductive Panic where
  /-- `wakeup_proc`: `proc->state != PROC_ZOMBIE` -/
  | wakeZombie
  /-- `wakeup_proc`: `proc->pid >= lcpu_count` -/
  | wakePid
  /-- `add_timer`: `timer->expires > 0 && timer->proc != NULL` -/
  | addArgs
  /-- `add_timer`: `list_empty(&(timer->timer_link))` -/
  | addLinked
  /-- `timer_init` on a timer that is still linked, which would cut the list -/
  | initLinked
  /-- `run_timer_list`: `timer->expires != 0` for the first timer -/
  | headExpires
  /-- `run_timer_list`: `proc->wait_state & WT_INTERRUPTED` -/
  | notInterruptible
  /-- `run_timer_list`: `timer->proc` is dereferenced -/
  | nullProc
  /-- an assertion of the scheduling class on the process it is to enqueue -/
  | enqueue
  deriving DecidableEq, Repr

/-- `struct sched_class`: the entries of the scheduling class that this file calls. The class
can refuse a process by an assertion of its own. -/
structure SchedClass (Rq : Type) where
  enqueue : Rq → ProcStruct → Option (Rq × ProcStruct)
  procTick : Rq → ProcStruct → Rq × ProcStruct

/-- The state of the scheduler that the timer functions work on. -/
structure SchedState (Rq : Type) where
  timerList : List TimerId
  timers : TimerId → Timer
  procs : ProcId → ProcStruct
  rq : Rq
  current : ProcId
  idleproc : ProcId
  lcpuCount : ℕ

variable {Rq : Type} (sc : SchedClass Rq)

/-- The fields of one process replaced. -/
def SchedState.setProc (s : SchedState Rq) (proc : ProcId) (p : ProcStruct) : SchedState Rq :=
  { s with procs := update s.procs proc p }

/-- `sched_class_enqueue`. -/
def schedClassEnqueue (s : SchedState Rq) (proc : ProcId) : Except Panic (SchedState Rq) :=
  if proc ≠ s.idleproc then
    match sc.enqueue s.rq (s.procs proc) with
    | none => .error .enqueue
    | some r => .ok { s.setProc proc r.2 with rq := r.1 }
  else .ok s

/-- `sched_class_proc_tick`. -/
def schedClassProcTick (s : SchedState Rq) (proc : ProcId) : SchedState Rq :=
  if proc ≠ s.idleproc then
    let r := sc.procTick s.rq (s.procs proc)
    { s.setProc proc r.2 with rq := r.1 }
  else s.setProc proc { s.procs proc with needResched := true }

/-- `wakeup_proc`. -/
def wakeupProc (s : SchedState Rq) (proc : ProcId) : Except Panic (SchedState Rq) :=
  if (s.procs proc).state = .zombie then .error .wakeZombie
  else if (s.procs proc).state ≠ .runnable then
    let s' := s.setProc proc { s.procs proc with state := .runnable, waitState := 0 }
    if proc ≠ s.current then
      if (s.procs proc).pid < s.lcpuCount then .error .wakePid
      else schedClassEnqueue sc s' proc
    else .ok s'
  else
    -- the source only warns: the process is runnable already
    .ok s

/-! ### The timer list -/

/-- `timer_init`: a timer that is on the list may not be initialised again. -/
def timerInit (s : SchedState Rq) (timer : TimerId) (proc : Option ProcId)
    (expires : BitVec 32) : Except Panic (SchedState Rq) :=
  if timer ∈ s.timerList then .error .initLinked
  else .ok { s with timers := update s.timers timer ⟨expires, proc⟩ }

/-- The expiry field of `ts timer` set to `e`. -/
def setExpires (ts : TimerId → Timer) (timer : TimerId) (e : BitVec 32) : TimerId → Timer :=
  update ts timer { ts timer with expires := e }

/-- The loop of `add_timer` from the list entry `le` on, given with the entries behind it: the
list and the timer fields it leaves. -/
def addTimerLoop (timer : TimerId) : List TimerId → (TimerId → Timer) →
    List TimerId × (TimerId → Timer)
  | [], ts => ([timer], ts)
  | next :: le, ts =>
    if (ts timer).expires < (ts next).expires then
      (timer :: next :: le, setExpires ts next ((ts next).expires - (ts timer).expires))
    else
      let r := addTimerLoop timer le
        (setExpires ts timer ((ts timer).expires - (ts next).expires))
      (next :: r.1, r.2)

/-- `add_timer`. -/
def addTimer (s : SchedState Rq) (timer : TimerId) : Except Panic (SchedState Rq) :=
  if ¬((s.timers timer).expires > 0 ∧ (s.timers timer).proc.isSome) then .error .addArgs
  else if timer ∈ s.timerList then .error .addLinked
  else
    let r := addTimerLoop timer s.timerList s.timers
    .ok { s with timerList := r.1, timers := r.2 }

/-- The entry behind `timer` on the list. -/
def listNext (timer : TimerId) : List TimerId → Option TimerId
  | [] => none
  | x :: l => if x = timer then l.head? else listNext timer l

/-- The first half of `del_timer`: the distance of `timer` goes to the timer behind it. -/
def passExpires (ts : TimerId → Timer) (timerList : List TimerId) (timer : TimerId) : TimerId → Timer :=
  if (ts timer).expires ≠ 0 then
    match listNext timer timerList with
    | some next => setExpires ts next ((ts next).expires + (ts timer).expires)
    | none => ts
  else ts

/-- `del_timer`. -/
def delTimer (s : SchedState Rq) (timer : TimerId) : SchedState Rq :=
  if timer ∈ s.timerList then
    { s with
      timerList := s.timerList.erase timer
      timers := passExpires s.timers s.timerList timer }
  else s

/-- The body of the `while` loop of `run_timer_list`: check the process, wake it, unlink the
timer. The process that was woken is returned with the state. -/
def expireTimer (s : SchedState Rq) (timer : TimerId) : Except Panic (SchedState Rq × ProcId) :=
  match (s.timers timer).proc with
  | none => .error .nullProc
  | some proc =>
    if (s.procs proc).waitState ≠ 0 ∧ (s.procs proc).waitState &&& wtInterrupted = 0 then
      .error .notInterruptible
    else do
      let s' ← wakeupProc sc s proc
      return (delTimer s' timer, proc)

/-- The `while` loop of `run_timer_list`, `le` being the current timer and the ones behind it:
the state it leaves, and the timers that expired with the process woken for each. -/
def expireLoop : List TimerId → SchedState Rq →
    Except Panic (SchedState Rq × List (TimerId × ProcId))
  | [], s => .ok (s, [])
  | timer :: le, s =>
    if (s.timers timer).expires = 0 then do
      let x ← expireTimer sc s timer
      let r ← expireLoop le x.1
      return (r.1, (timer, x.2) :: r.2)
    else .ok (s, [])

/-- `run_timer_list`, with the wakeups it makes. -/
def runTimerList (s : SchedState Rq) : Except Panic (SchedState Rq × List (TimerId × ProcId)) :=
  match s.timerList with
  | [] => .ok (schedClassProcTick sc s s.current, [])
  | timer :: le =>
    if (s.timers timer).expires = 0 then .error .headExpires
    else do
      let r ← expireLoop sc (timer :: le)
        { s with timers := setExpires s.timers timer ((s.timers timer).expires - 1) }
      return (schedClassProcTick sc r.1 r.1.current, r.2)

/-! ### Sequences of operations -/

/-- One operation on the timer list. -/
inductive TimerOp where
  | init (timer : TimerId) (proc : Option ProcId) (expires : BitVec 32)
  | add (timer : TimerId)
  | del (timer : TimerId)
  | tick
  deriving DecidableEq, Repr

/-- One operation, with the wakeups it makes. -/
def step (s : SchedState Rq) : TimerOp →
    Except Panic (SchedState Rq × List (TimerId × ProcId))
  | .init timer proc expires => do
      let s' ← timerInit s timer proc expires
      return (s', [])
  | .add timer => do
      let s' ← addTimer s timer
      return (s', [])
  | .del timer => .ok (delTimer s timer, [])
  | .tick => runTimerList sc s

/-- A sequence of operations, with the wakeups in the order they are made. -/
def run (s : SchedState Rq) : List TimerOp →
    Except Panic (SchedState Rq × List (TimerId × ProcId))
  | [] => .ok (s, [])
  | op :: ops => do
      let r ← step sc s op
      let rs ← run r.1 ops
      return (rs.1, r.2 ++ rs.2)

/-! ### The round-robin class, `schedule/sched_RR.c` -/

/-- `struct run_queue`, the processes on `run_list` being given by their pids. -/
structure RunQueue where
  runList : List ℕ
  procNum : ℕ
  maxTimeSlice : ℕ
  deriving DecidableEq, Repr

/-- `RR_enqueue`. -/
def rrEnqueue (rq : RunQueue) (proc : ProcStruct) : Option (RunQueue × ProcStruct) :=
  if proc.pid ∈ rq.runList then none
  else
    let slice :=
      if proc.timeSlice = 0 ∨ proc.timeSlice > rq.maxTimeSlice then rq.maxTimeSlice
      else proc.timeSlice
    some ({ rq with runList := rq.runList ++ [proc.pid], procNum := rq.procNum + 1 },
      { proc with timeSlice := slice })

/-- `RR_proc_tick`. -/
def rrProcTick (rq : RunQueue) (proc : ProcStruct) : RunQueue × ProcStruct :=
  let slice := proc.timeSlice - 1
  (rq, { proc with timeSlice := slice, needResched := proc.needResched || slice == 0 })

/-- `RR_sched_class`. -/
def rrSchedClass : SchedClass RunQueue := ⟨rrEnqueue, rrProcTick⟩

end UcoreKernel.Sched
