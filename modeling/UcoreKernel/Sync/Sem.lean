import UcoreKernel.Lib.Guarded
import UcoreKernel.Sched.Sched

/-!
Semaphores: `sync/sem.c` over the wait queues of `sync/wait.c`.

A process that finds no unit queues itself and sleeps, between two sections that run with
interrupts disabled: `downStart` up to the call of `schedule`, and `downFinish` when it runs again.
In between, any other process may call `__up`, a timer may expire (`run_timer_list`) and the process
may be killed (`__do_kill`); each of these is one step. A waiter that a timer or a kill has woken is
runnable and not in the wait state any more, but it stays in the queue until it runs.

* `semaphore_conserves_iff`: units are conserved and no assertion fails in a run exactly when each
  `__up` finds its first waiter, if there is one, still in the wait state, and room in `value`
  otherwise;
* `kernel_semaphore_conserves`: a kernel semaphore cannot lose a waiter to a timer or a kill, so
  there the range of `value` is all that matters.
-/

namespace UcoreKernel.Semaphore

open Function List

open Sched (ProcId ProcState wtInterrupted)

/-- `up` and `down` of the kernel, `usem_up` and `usem_down` of user processes. -/
inductive Kind where
  | kernel
  | user
deriving DecidableEq

/-- `WT_KSEM` and `WT_USEM`. -/
def Kind.waitState : Kind → BitVec 32
  | .kernel => 0x00000100#32
  | .user => 0x00000101#32 ||| wtInterrupted

/-- A process between the two sections of `__down`: its own fields, its `wait_t`, and whether its
timer is in the timer list. -/
structure Waiter where
  state : ProcState
  waitState : BitVec 32
  wakeupFlags : BitVec 32
  timer : Bool
deriving DecidableEq

/-- `semaphore_t`, with the processes inside `__down`. The last three fields count: completed calls
of `__up`, downs that returned with a unit, and the processes that an `__up` has given its unit and
that have not returned yet. -/
structure Sem where
  value : BitVec 32
  valid : Bool
  waitQueue : List ProcId
  waiter : ProcId → Option Waiter
  ups : ℕ
  returned : ℕ
  given : List ProcId

/-- The assertions that can fail. -/
inductive Panic where
  /-- `assert(sem->valid)` -/
  | invalid
  /-- `assert(wait->proc->wait_state == wait_state)` in `__up` -/
  | notInWaitState
  /-- `assert(proc->state != PROC_ZOMBIE)` in `wakeup_proc` -/
  | zombie
  /-- `assert(proc->wait_state & WT_INTERRUPTED)` in `run_timer_list` -/
  | notInterruptible
  /-- the check of the result in `down` and in `usem_down` -/
  | wrongFlags
deriving DecidableEq

/-- `sem_init`. -/
def semInit (value : BitVec 32) : Sem := ⟨value, true, [], fun _ => none, 0, 0, []⟩

/-- `wakeup_proc`; a process that is runnable already gets a warning only. -/
def wakeupProc (w : Waiter) : Except Panic Waiter :=
  if w.state = .zombie then .error .zombie
  else if w.state ≠ .runnable then .ok { w with state := .runnable, waitState := 0 }
  else .ok w

/-- `wakeup_wait` for a waiter that is taken out of the queue. -/
def wakeupWait (s : Sem) (proc : ProcId) (w : Waiter) (wakeupFlags : BitVec 32) : Except Panic Sem := do
  let w ← wakeupProc { w with wakeupFlags := wakeupFlags }
  return { s with
    waitQueue := s.waitQueue.erase proc
    waiter := update s.waiter proc (some w) }

/-- `__up`. Only processes inside `__down` are queued, so the first of the queue has a `wait_t`. -/
def up (kind : Kind) (s : Sem) : Except Panic Sem :=
  if ¬s.valid then .error .invalid
  else match s.waitQueue with
    | [] => .ok { s with value := s.value + 1, ups := s.ups + 1 }
    | proc :: _ =>
      match s.waiter proc with
      | none => .ok s
      | some w =>
        if w.waitState ≠ kind.waitState then .error .notInWaitState
        else do
          let s ← wakeupWait s proc w kind.waitState
          return { s with ups := s.ups + 1, given := proc :: s.given }

/-- `wait_current_set` for `proc`, and `ipc_add_timer`. -/
def waitCurrentSet (s : Sem) (proc : ProcId) (waitState : BitVec 32) (timer : Bool) : Sem :=
  { s with
    waitQueue := s.waitQueue ++ [proc]
    waiter := update s.waiter proc (some ⟨.sleeping, waitState, wtInterrupted, timer⟩) }

/-- `__down` up to the call of `schedule`, by a process that is not inside it. -/
def downStart (kind : Kind) (s : Sem) (proc : ProcId) (timer : Bool) : Except Panic Sem :=
  if ¬s.valid then .error .invalid
  else if 0 < s.value.toInt then
    .ok { s with value := s.value - 1, returned := s.returned + 1 }
  else .ok (waitCurrentSet s proc kind.waitState timer)

/-- The flags that `__down` returns. -/
def downFlags (kind : Kind) (w : Waiter) : BitVec 32 :=
  if w.wakeupFlags ≠ kind.waitState then w.wakeupFlags else 0

/-- The result that the callers of `__down` accept: `down` none but `0`, and `usem_down` also
`WT_INTERRUPTED`, for which it returns `-E_TIMEOUT` or `-1`. -/
def acceptsFlags (kind : Kind) (flags : BitVec 32) : Bool :=
  flags = 0 ∨ (kind = .user ∧ flags = wtInterrupted)

/-- `__down` after the call of `schedule`: the timer and the queue entry go away. -/
def downFinish (kind : Kind) (s : Sem) (proc : ProcId) (w : Waiter) : Except Panic Sem :=
  if acceptsFlags kind (downFlags kind w) then
    .ok { s with
      waitQueue := s.waitQueue.erase proc
      waiter := update s.waiter proc none
      returned := if downFlags kind w = 0 then s.returned + 1 else s.returned
      given := s.given.erase proc }
  else .error .wrongFlags

/-- The part of `run_timer_list` for an expired timer. -/
def expireTimer (s : Sem) (proc : ProcId) (w : Waiter) : Except Panic Sem :=
  if w.waitState ≠ 0 ∧ w.waitState &&& wtInterrupted = 0 then .error .notInterruptible
  else do
    let w ← wakeupProc w
    return { s with waiter := update s.waiter proc (some { w with timer := false }) }

/-- `__do_kill`. -/
def kill (s : Sem) (proc : ProcId) (w : Waiter) : Except Panic Sem :=
  if w.waitState &&& wtInterrupted ≠ 0 then do
    let w ← wakeupProc w
    return { s with waiter := update s.waiter proc (some w) }
  else .ok s

/-- The sections that can run. -/
inductive Event where
  /-- A process that is not inside `__down` calls `__up`. -/
  | up (proc : ProcId)
  /-- A process calls `__down`, a user process perhaps with a timeout. -/
  | down (proc : ProcId) (timeout : Bool)
  /-- A process that is inside `__down` and runnable is scheduled. -/
  | resume (proc : ProcId)
  /-- The timer of a process expires. -/
  | expire (proc : ProcId)
  /-- A process is killed. -/
  | kill (proc : ProcId)
deriving DecidableEq

/-- One section. An event that cannot happen in a state (a process inside `__down` calls nothing, a
sleeping one is not scheduled, a timer that is not in the list does not expire) changes nothing. -/
def step (kind : Kind) (s : Sem) : Event → Except Panic Sem
  | .up proc =>
    match s.waiter proc with
    | none => up kind s
    | some _ => .ok s
  | .down proc timeout =>
    match s.waiter proc with
    | none => downStart kind s proc (timeout && kind = .user)
    | some _ => .ok s
  | .resume proc =>
    match s.waiter proc with
    | some w => if w.state = .runnable then downFinish kind s proc w else .ok s
    | none => .ok s
  | .expire proc =>
    match s.waiter proc with
    | some w => if w.timer then expireTimer s proc w else .ok s
    | none => .ok s
  | .kill proc =>
    match s.waiter proc with
    | some w => kill s proc w
    | none => .ok s

/-- A run of sections. -/
def run (kind : Kind) (s : Sem) : List Event → Except Panic Sem
  | [] => .ok s
  | e :: es => step kind s e >>= fun s => run kind s es

/-! ### What is claimed of a state, and of a step -/

/-- Downs that have got a unit: those that returned with it, and those that an `__up` has woken
with it. -/
def Sem.successfulDowns (s : Sem) : ℕ := s.returned + s.given.length

/-- Units are conserved, and no process that is about to report a timeout or an interruption has
been given one. -/
structure Conserved (kind : Kind) (init : BitVec 32) (s : Sem) : Prop where
  balance : init.toInt + s.ups = s.value.toInt + s.successfulDowns
  interrupted : ∀ proc w, s.waiter proc = some w → downFlags kind w ≠ 0 → proc ∉ s.given

/-- An `__up` finds its first waiter in the wait state, or can count up. -/
def UpSafe (kind : Kind) (s : Sem) : Prop :=
  match s.waitQueue with
  | [] => s.value.toInt ≠ 2 ^ 31 - 1
  | proc :: _ => ∀ w ∈ s.waiter proc, w.waitState = kind.waitState

/-- The condition on one section. -/
def Safe (kind : Kind) (s : Sem) : Event → Prop
  | .up proc => s.waiter proc = none → UpSafe kind s
  | _ => True

/-! ### The invariant -/

variable {kind : Kind} {s s' : Sem} {init : BitVec 32} {proc p : ProcId} {w : Waiter}

/-- A waiter that still has to get a unit: asleep in the wait state, or woken by a timer or a kill,
which takes an interruptible wait. -/
inductive Queued (kind : Kind) : Waiter → Prop where
  | asleep (timer : Bool) (htimer : timer = true → kind = .user) :
      Queued kind ⟨.sleeping, kind.waitState, wtInterrupted, timer⟩
  | woken (timer : Bool) (hkind : kind = .user) :
      Queued kind ⟨.runnable, 0, wtInterrupted, timer⟩

/-- A waiter that was given a unit. -/
inductive Served (kind : Kind) : Waiter → Prop where
  | mk (timer : Bool) (htimer : timer = true → kind = .user) :
      Served kind ⟨.runnable, 0, kind.waitState, timer⟩

/-- What holds between two sections. -/
structure Inv (kind : Kind) (init : BitVec 32) (s : Sem) : Prop where
  valid : s.valid = true
  balance : init.toInt + s.ups = s.value.toInt + s.successfulDowns
  nodup : s.waitQueue.Nodup
  queued : ∀ proc, proc ∈ s.waitQueue ↔ ∃ w, s.waiter proc = some w ∧ Queued kind w
  served : ∀ proc, proc ∈ s.given ↔ ∃ w, s.waiter proc = some w ∧ Served kind w
  given_nodup : s.given.Nodup
  waiters : ∀ proc w, s.waiter proc = some w → Queued kind w ∨ Served kind w

section

variable (kind : Kind)

lemma inv_semInit (init : BitVec 32) : Inv kind init (semInit init) where
  valid := rfl
  balance := by simp [semInit, Sem.successfulDowns]
  nodup := nodup_nil
  queued := by simp [semInit]
  served := by simp [semInit]
  given_nodup := nodup_nil
  waiters := by simp [semInit]

lemma waitState_ne_zero : kind.waitState ≠ 0 := by
  cases kind <;> decide

lemma waitState_ne_interrupted : kind.waitState ≠ wtInterrupted := by
  cases kind <;> decide

lemma interruptible_iff : kind.waitState &&& wtInterrupted ≠ 0 ↔ kind = .user := by
  cases kind <;> decide

end

lemma Queued.not_served (hq : Queued kind w) : ¬Served kind w := by
  rintro ⟨timer, -⟩
  generalize hflags : kind.waitState = flags at hq
  cases hq
  all_goals exact waitState_ne_interrupted kind hflags

/-- A process inside `__down` that is about to report an interruption has no unit. -/
lemma Inv.conserved (h : Inv kind init s) : Conserved kind init s where
  balance := h.balance
  interrupted := by
    intro proc w hw hflags hgiven
    obtain ⟨w', hw', hserved⟩ := (h.served proc).mp hgiven
    cases hw.symm.trans hw'
    obtain ⟨timer, -⟩ := hserved
    simp [downFlags] at hflags

/-- The queue and the units do not see a waiter that changes and stays what it is to them. -/
lemma Inv.updateWaiter (h : Inv kind init s) (hw : s.waiter p = some w) {w' : Waiter}
    (hkeep : Queued kind w ∧ Queued kind w' ∨ Served kind w ∧ Served kind w') :
    Inv kind init { s with waiter := update s.waiter p (some w') } := by
  have hq : Queued kind w ↔ Queued kind w' := hkeep.elim (fun hk => iff_of_true hk.1 hk.2)
    fun hk => iff_of_false (·.not_served hk.1) fun hq => hq.not_served hk.2
  have hs : Served kind w ↔ Served kind w' := hkeep.elim
    (fun hk => iff_of_false hk.1.not_served hk.2.not_served) fun hk => iff_of_true hk.1 hk.2
  refine ⟨h.valid, h.balance, h.nodup, fun q => ?_, fun q => ?_, h.given_nodup, fun q v hv => ?_⟩
  · rw [h.queued q]
    obtain rfl | hEq := eq_or_ne q p
    · simp [hw, hq]
    · simp [update_of_ne hEq]
  · rw [h.served q]
    obtain rfl | hEq := eq_or_ne q p
    · simp [hw, hs]
    · simp [update_of_ne hEq]
  · by_cases hEq : q = p
    · grind
    · dsimp only at hv
      rw [update_of_ne hEq] at hv
      exact h.waiters q v hv

/-! ### One section -/

/-- A waiter without a unit that a timer or a kill wakes up. -/
lemma Queued.wakeupProc (hq : Queued kind w) (hkind : kind = .user) :
    ∃ timer, wakeupProc w = .ok ⟨.runnable, 0, wtInterrupted, timer⟩ ∧
      Queued kind ⟨.runnable, 0, wtInterrupted, timer⟩ := by
  cases hq with
  | asleep timer _ | woken timer _ => exact ⟨timer, rfl, .woken timer hkind⟩

lemma Served.wakeupProc (hs : Served kind w) : wakeupProc w = .ok w := by
  obtain ⟨timer, -⟩ := hs
  rfl

/-- A timer can only be one of a user process. -/
lemma Inv.user_of_timer (h : Inv kind init s) (hw : s.waiter p = some w) (ht : w.timer = true) :
    kind = .user := by
  obtain hq | ⟨timer, htimer⟩ := h.waiters p w hw
  · cases hq with
    | asleep timer htimer => exact htimer ht
    | woken timer hkind => exact hkind
  · exact htimer ht

/-- The wait of a user process can be interrupted. -/
lemma waitState_interruptible (hkind : kind = .user) (hw : Queued kind w ∨ Served kind w) :
    ¬(w.waitState ≠ 0 ∧ w.waitState &&& wtInterrupted = 0) := by
  rintro ⟨hne, hbit⟩
  obtain hq | ⟨timer, -⟩ := hw
  · cases hq with
    | asleep timer _ => exact (interruptible_iff kind).mpr hkind hbit
    | woken timer _ => exact hne rfl
  · exact hne rfl

section

variable (h : Inv kind init s)
include h

/-- An expired timer wakes its process, which stays in the queue. -/
lemma expireTimer_inv (hw : s.waiter p = some w) (ht : w.timer = true) :
    ∃ s', expireTimer s p w = .ok s' ∧ Inv kind init s' := by
  have hkind := h.user_of_timer hw ht
  rw [expireTimer, if_neg (waitState_interruptible hkind (h.waiters p w hw))]
  obtain hq | hserved := h.waiters p w hw
  · obtain ⟨timer, hwake, -⟩ := hq.wakeupProc hkind
    rw [hwake]
    exact ⟨_, rfl, h.updateWaiter hw (.inl ⟨hq, .woken false hkind⟩)⟩
  · rw [hserved.wakeupProc]
    refine ⟨_, rfl, h.updateWaiter hw (.inr ⟨hserved, ?_⟩)⟩
    obtain ⟨timer, -⟩ := hserved
    exact ⟨false, nofun⟩

/-- A kill wakes a process whose wait can be interrupted, which stays in the queue. -/
lemma kill_inv (hw : s.waiter p = some w) : ∃ s', kill s p w = .ok s' ∧ Inv kind init s' := by
  rw [kill]
  split_ifs with hbit
  · obtain hq | hserved := h.waiters p w hw
    · have hkind : kind = .user := by
        cases hq with
        | asleep timer _ => exact (interruptible_iff kind).mp hbit
        | woken timer hkind => exact hkind
      obtain ⟨timer, hwake, hq'⟩ := hq.wakeupProc hkind
      rw [hwake]
      exact ⟨_, rfl, h.updateWaiter hw (.inl ⟨hq, hq'⟩)⟩
    · rw [hserved.wakeupProc]
      exact ⟨_, rfl, h.updateWaiter hw (.inr ⟨hserved, hserved⟩)⟩
  · exact ⟨s, rfl, h⟩

/-- A process takes a unit or goes to sleep at the end of the queue. -/
lemma downStart_inv (hp : s.waiter p = none) {timer : Bool} (htimer : timer = true → kind = .user) :
    ∃ s', downStart kind s p timer = .ok s' ∧ Inv kind init s' := by
  rw [downStart, if_neg (by simp [h.valid])]
  split_ifs with hpos
  · refine ⟨_, rfl, h.valid, ?_, h.nodup, h.queued, h.served, h.given_nodup, h.waiters⟩
    have hb := h.balance
    grind [Sem.successfulDowns]
  · have hnot : p ∉ s.waitQueue := fun hmem => by
      obtain ⟨w, hw, -⟩ := (h.queued p).mp hmem
      exact Option.some_ne_none w (hw.symm.trans hp)
    refine ⟨_, rfl, h.valid, h.balance, ?_, fun q => ?_, fun q => ?_, h.given_nodup, fun q v hv => ?_⟩
    · exact nodup_append.mpr ⟨h.nodup, nodup_singleton p, by grind⟩
    · obtain rfl | hEq := eq_or_ne q p
      · simpa [waitCurrentSet] using Queued.asleep timer htimer
      · simp [waitCurrentSet, hEq, h.queued q]
    · obtain rfl | hEq := eq_or_ne q p
      · have hno : q ∉ s.given := by simp [h.served q, hp]
        simpa [waitCurrentSet, hno] using (Queued.asleep timer htimer).not_served
      · simp [waitCurrentSet, update_of_ne hEq, h.served q]
    · obtain rfl | hEq := eq_or_ne q p
      · simp only [waitCurrentSet, update_self, Option.some.injEq] at hv
        exact .inl (hv ▸ .asleep timer htimer)
      · simp only [waitCurrentSet, update_of_ne hEq] at hv
        exact h.waiters q v hv

/-- A runnable waiter returns: with a unit if it was given one, and interrupted otherwise. -/
lemma downFinish_inv (hw : s.waiter p = some w) (hrun : w.state = .runnable) :
    ∃ s', downFinish kind s p w = .ok s' ∧ Inv kind init s' := by
  -- Whatever the waiter returns, it leaves the queue and the list of those that have a unit.
  have hkeep : ∀ returned, init.toInt + s.ups =
      s.value.toInt + (returned + (s.given.erase p).length : ℕ) →
      Inv kind init { s with
        waitQueue := s.waitQueue.erase p
        waiter := update s.waiter p none
        returned := returned
        given := s.given.erase p } := by
    intro returned hb
    refine ⟨h.valid, hb, h.nodup.erase p, fun q => ?_, fun q => ?_, h.given_nodup.erase p, fun q v hv => ?_⟩
    · rw [h.nodup.mem_erase_iff]
      by_cases hEq : q = p
      · simp [hEq]
      · simp [hEq, h.queued q]
    · rw [h.given_nodup.mem_erase_iff]
      by_cases hEq : q = p
      · simp [hEq]
      · simp [hEq, h.served q]
    · by_cases hEq : q = p
      · simp [hEq] at hv
      · simp only [update_of_ne hEq] at hv
        exact h.waiters q v hv
  have hb := h.balance
  rw [Sem.successfulDowns] at hb
  obtain hq | hserved := h.waiters p w hw
  · have hno : p ∉ s.given := fun hgiven => by
      obtain ⟨w', hw', hs'⟩ := (h.served p).mp hgiven
      exact hq.not_served (Option.some.inj (hw.symm.trans hw') ▸ hs')
    have hlen : (s.given.erase p).length = s.given.length := by rw [erase_of_not_mem hno]
    cases hq with
    | asleep timer _ => cases hrun
    | woken timer hkind =>
      subst hkind
      exact ⟨_, rfl, hkeep s.returned (by rw [hlen]; exact hb)⟩
  · have hmem : p ∈ s.given := (h.served p).mpr ⟨w, hw, hserved⟩
    obtain ⟨timer, -⟩ := hserved
    grind [downFlags, downFinish, acceptsFlags]

/-- A safe `__up` adds a unit, or hands it to the first waiter. -/
lemma up_inv (hsafe : UpSafe kind s) : ∃ s', up kind s = .ok s' ∧ Inv kind init s' := by
  rw [up, if_neg (by simp [h.valid])]
  have hb := h.balance
  rw [UpSafe] at hsafe
  cases hqueue : s.waitQueue with
  | nil =>
    refine ⟨_, rfl, h.valid, ?_, nodup_nil, fun q => ?_, h.served, h.given_nodup, h.waiters⟩
    swap
    · exact hqueue ▸ h.queued q
    grind [Sem.successfulDowns]
  | cons first rest =>
    rw [hqueue] at hsafe
    obtain ⟨w, hw, hq⟩ := (h.queued first).mp (hqueue ▸ (.head _))
    have hstate := hsafe w hw
    simp only [hw]
    rw [if_neg (not_not.mpr hstate)]
    -- A waiter in the wait state is asleep.
    cases hq with
    | woken timer _ => exact absurd hstate.symm (waitState_ne_zero kind)
    | asleep timer htimer =>
      have hserved : Served kind ⟨.runnable, 0, kind.waitState, timer⟩ := ⟨timer, htimer⟩
      have hno : first ∉ s.given := fun hgiven => by
        obtain ⟨w', hw', hs'⟩ := (h.served first).mp hgiven
        exact (Queued.asleep timer htimer).not_served (Option.some.inj (hw.symm.trans hw') ▸ hs')
      have hnodup := h.nodup
      refine ⟨_, rfl, h.valid, ?_, ?_, fun q => ?_, fun q => ?_, nodup_cons.mpr ⟨hno, h.given_nodup⟩, fun q v hv => ?_⟩
      · grind [Sem.successfulDowns]
      · exact h.nodup.erase first
      · rw [h.nodup.mem_erase_iff]
        obtain rfl | hEq := eq_or_ne q first
        · simpa using fun hq => hq.not_served hserved
        · simp [hEq, h.queued q]
      · obtain rfl | hEq := eq_or_ne q first
        · simpa using hserved
        · simp [hEq, h.served q]
      · by_cases hEq : q = first
        · grind
        · simp only [update_of_ne hEq] at hv
          exact h.waiters q v hv

/-- An `__up` that is not safe fails its assertion, or wraps `value` around. -/
lemma up_of_not_safe (hsafe : ¬UpSafe kind s) (hup : up kind s = .ok s') : ¬Conserved kind init s' := by
  rw [up, if_neg (by simp [h.valid])] at hup
  rw [UpSafe] at hsafe
  cases hqueue : s.waitQueue with
  | nil =>
    simp only [hqueue, not_not] at hsafe hup
    cases hup
    rintro ⟨hb', -⟩
    have hb := h.balance
    grind [Sem.successfulDowns]
  | cons first rest => grind

/-! ### Runs -/

/-- Every safe section keeps the invariant. -/
lemma step_inv (e : Event) (hsafe : Safe kind s e) : ∃ s', step kind s e = .ok s' ∧ Inv kind init s' := by
  cases e with
  | up p =>
    rw [step]
    cases hp : s.waiter p with
    | none => exact up_inv h (hsafe hp)
    | some w => exact ⟨s, rfl, h⟩
  | down p timeout =>
    rw [step]
    cases hp : s.waiter p with
    | none => exact downStart_inv h hp fun ht => of_decide_eq_true (Bool.and_eq_true_iff.mp ht).2
    | some w => exact ⟨s, rfl, h⟩
  | resume p => grind [step, downFinish_inv]
  | expire p => grind [step, expireTimer_inv]
  | kill p => grind [step, kill_inv]

/-- A section that is not safe is an `__up`, and it breaks the balance if it does not fail. -/
lemma step_of_not_safe (e : Event) (hsafe : ¬Safe kind s e)
    (hstep : step kind s e = .ok s') : ¬Conserved kind init s' := by
  cases e with
  | up p => grind [Safe, step, up_of_not_safe]
  | _ => exact absurd trivial hsafe

end

/-- From `sem_init` on, over all orders of the sections of any number of processes, of expiring
timers and of kills: units are conserved, interrupted downs take none and no assertion fails, exactly
when every `__up` of the run finds its first waiter in the wait state or, without a waiter, a `value`
that is not the largest `int`. -/
theorem semaphore_conserves_iff (kind : Kind) (init : BitVec 32) (events : List Event) :
    Guarded.Correct (step kind) (Conserved kind init) (semInit init) events ↔
      Guarded.AllSafe (step kind) (Safe kind) (semInit init) events :=
  Guarded.correct_iff_allSafe (Inv kind init) (fun _ => Inv.conserved)
    (fun _ e h => step_inv h e) (fun _ e _ h => step_of_not_safe h e) (inv_semInit kind init) events

/-- A user process waits with a timeout and its timer expires. Before it runs, another process posts
the semaphore: the assertion of `__up` fails. A kill does the same. -/
theorem semaphore_up_after_expiry_panics :
    run .user (semInit 0) [.down 1 true, .expire 1, .up 2] = .error .notInWaitState ∧
      run .user (semInit 0) [.down 1 false, .kill 1, .up 2] = .error .notInWaitState :=
  ⟨rfl, rfl⟩

/-- The waiters of a kernel semaphore are in the wait state as long as they are queued. -/
lemma Inv.kernel_waiting (h : Inv .kernel init s) (hmem : p ∈ s.waitQueue)
    (hw : s.waiter p = some w) : w.waitState = Kind.kernel.waitState := by
  obtain ⟨w', hw', hq⟩ := (h.queued p).mp hmem
  cases hw.symm.trans hw'
  cases hq with
  | asleep timer _ => rfl
  | woken timer hkind => cases hkind

/-- A section of a kernel semaphore is safe unless it counts beyond the largest `int`. -/
lemma kernel_safe (h : Inv .kernel init s) (e : Event) (hvalue : s.value.toInt ≠ 2 ^ 31 - 1) :
    Safe .kernel s e := by
  cases e with
  | up p =>
    intro _
    rw [UpSafe]
    split
    · exact hvalue
    · rename_i first rest hqueue
      exact fun w hw => h.kernel_waiting (hqueue ▸ (.head _)) hw
  | _ => trivial

/-- A kernel semaphore conserves its units, and none of its assertions fails, as long as `value`
stays below the largest `int`: no timer and no kill can wake its waiters. -/
theorem kernel_semaphore_conserves (init : BitVec 32) (events : List Event)
    (hroom : Guarded.AllSafe (step .kernel) (fun s _ => s.value.toInt ≠ 2 ^ 31 - 1) (semInit init) events) :
    Guarded.Correct (step .kernel) (Conserved .kernel init) (semInit init) events :=
  Guarded.correct_of_allSafe (Inv .kernel init) (fun _ => Inv.conserved)
    (fun _ e h hvalue => step_inv h e (kernel_safe h e hvalue)) (inv_semInit .kernel init) hroom

/-- A process waits for another one. -/
theorem kernel_semaphore_conserves_handover : Guarded.Correct (step .kernel) (Conserved .kernel 0) (semInit 0)
    [.down 1 false, .up 2, .resume 1] :=
  kernel_semaphore_conserves 0 _ ⟨by decide, by decide, by decide, trivial⟩

end UcoreKernel.Semaphore
