import UcoreKernel.Lib.Counting
import UcoreKernel.Lib.Except
import UcoreKernel.Sched.Mlfq

/-!
The run queues hold the processes that wait for the CPU.

* `run_queues_hold_waiting`: no assertion about the run queues fails in any run, and `QueuesOk` holds
  in every state that is reached.
-/

namespace UcoreKernel.Mlfq

open UcoreKernel.Except (Ensures)
open Function List

open Sched (ProcId ProcState)

/-! ### What the run queues hold -/

namespace State

/-- How often a process is in the run queues. -/
def timesQueued (s : State) (proc : ProcId) : ℕ := ∑ i, (s.rqs i).runList.count proc

/-- The process waits for the CPU. -/
def Waiting (s : State) (proc : ProcId) : Prop :=
  (s.procs proc).state = .runnable ∧ proc ≠ s.current ∧ proc ≠ s.idleproc

instance (s : State) (proc : ProcId) : Decidable (s.Waiting proc) :=
  inferInstanceAs (Decidable (_ ∧ _))

end State

/-- What holds between two steps of the scheduler. -/
structure QueuesOk (s : State) : Prop where
  queued : ∀ proc, s.timesQueued proc = if s.Waiting proc then 1 else 0
  procNum : ∀ i, (s.rqs i).procNum = (s.rqs i).runList.length
  timeSlice : ∀ i, ∀ proc ∈ (s.rqs i).runList,
    1 ≤ (s.procs proc).timeSlice ∧ (s.procs proc).timeSlice ≤ (s.rqs i).maxTimeSlice
  pickNext : mlfqPickNext s = none ↔ ∀ i, (s.rqs i).runList = []

/-- What a process in a run queue has. -/
structure Fits (p : Proc) (rq : Level) (maxTimeSlice : ℕ) : Prop where
  rq : p.rq = some rq
  one_le : 1 ≤ p.timeSlice
  le_max : p.timeSlice ≤ maxTimeSlice

/-- The run queues hold the processes of the set `W`, each once. -/
structure Holding (s : State) (W : Set ProcId) : Prop where
  mem : ∀ proc ∈ W, s.timesQueued proc = 1
  notMem : ∀ proc ∉ W, s.timesQueued proc = 0
  fits : ∀ i, ∀ proc ∈ (s.rqs i).runList, Fits (s.procs proc) i (s.rqs i).maxTimeSlice
  procNum : ∀ i, (s.rqs i).procNum = (s.rqs i).runList.length
  maxTimeSlice : ∀ i, 1 ≤ (s.rqs i).maxTimeSlice

variable {s s' : State} {W W' : Set ProcId} {proc : ProcId}

/-- The process is linked exactly if it is queued at least once. -/
lemma linked_iff : linked s proc ↔ s.timesQueued proc ≠ 0 := by
  rw [State.timesQueued, ne_eq, Finset.sum_eq_zero_iff]
  simp [linked, count_eq_zero]

namespace Holding

variable (h : Holding s W)
include h

lemma linked_iff_mem : linked s proc ↔ proc ∈ W := by
  rw [linked_iff]
  by_cases hproc : proc ∈ W
  · simp [hproc, h.mem proc hproc]
  · simp [hproc, h.notMem proc hproc]

/-- The processes in the run queues are those of the set. -/
lemma mem_of_mem {i : Level} (hproc : proc ∈ (s.rqs i).runList) : proc ∈ W :=
  h.linked_iff_mem.mp ⟨i, hproc⟩

/-- Processes that are not queued can change, as can all that the run queues do not depend on. -/
lemma congr (hrqs : s'.rqs = s.rqs) (hqueued : ∀ proc ∈ W, (s'.procs proc).rq = (s.procs proc).rq ∧
      (s'.procs proc).timeSlice = (s.procs proc).timeSlice) : Holding s' W := by
  have htimes : s'.timesQueued = s.timesQueued := by
    funext proc
    simp only [State.timesQueued, hrqs]
  refine ⟨fun proc => htimes ▸ h.mem proc, fun proc => htimes ▸ h.notMem proc, ?_,
    hrqs ▸ h.procNum, hrqs ▸ h.maxTimeSlice⟩
  intro i proc hproc
  rw [hrqs] at hproc ⊢
  obtain ⟨hrq, htime⟩ := hqueued proc (h.mem_of_mem hproc)
  obtain ⟨hfit, hone, hmax⟩ := h.fits i proc hproc
  exact ⟨hrq.trans hfit, htime ▸ hone, htime ▸ hmax⟩

/-- A process that is not queued changes. -/
lemma setProc (hproc : proc ∉ W) (p : Proc) : Holding (s.setProc proc p) W := by
  refine h.congr rfl fun q hq => ?_
  have hne : q ≠ proc := fun hqp : q = proc => hproc (hqp ▸ hq)
  simp [State.setProc, update_of_ne hne]

/-- One run queue is replaced, and only the place of one process changes with it. -/
lemma replace (proc : ProcId) {rq : Level} {r : RunQueue} (hrqs : s'.rqs = update s.rqs rq r)
    (hprocs : ∀ q ≠ proc, s'.procs q = s.procs q)
    (hcount : ∀ q ≠ proc, r.runList.count q = (s.rqs rq).runList.count q)
    (helse : ∀ i ≠ rq, proc ∉ (s.rqs i).runList)
    (hfits : proc ∈ r.runList → Fits (s'.procs proc) rq r.maxTimeSlice)
    (hin : proc ∈ W' → r.runList.count proc = 1) (hout : proc ∉ W' → r.runList.count proc = 0)
    (hW : ∀ q ≠ proc, (q ∈ W' ↔ q ∈ W)) (hnum : r.procNum = r.runList.length)
    (hmax : r.maxTimeSlice = (s.rqs rq).maxTimeSlice) : Holding s' W' := by
  -- the other processes are queued as often as before, and this one only in the run queue `rq`
  have hother : ∀ q ≠ proc, s'.timesQueued q = s.timesQueued q := by
    intro q hq
    have hsum := Counting.sum_update_add (Finset.mem_univ rq) (·.runList.count q) s.rqs r
    have hsame := hcount q hq
    simp only [State.timesQueued, hrqs]
    omega
  have hself : s'.timesQueued proc = r.runList.count proc := by
    rw [State.timesQueued, Finset.sum_eq_single rq]
    · rw [hrqs, update_self]
    · intro i _ hi
      rw [hrqs, update_of_ne hi]
      exact count_eq_zero.mpr (helse i hi)
    · exact fun hrq => absurd (Finset.mem_univ rq) hrq
  constructor
  case mem =>
    intro q hq
    obtain rfl | hqp := eq_or_ne q proc
    · exact hself.trans (hin hq)
    · rw [hother q hqp, h.mem q ((hW q hqp).mp hq)]
  case notMem =>
    intro q hq
    obtain rfl | hqp := eq_or_ne q proc
    · exact hself.trans (hout hq)
    · rw [hother q hqp, h.notMem q ((hW q hqp).not.mp hq)]
  case fits =>
    intro i q hq
    rw [hrqs] at hq ⊢
    obtain rfl | hi := eq_or_ne i rq
    · rw [update_self] at hq ⊢
      obtain rfl | hqp := eq_or_ne q proc
      · exact hfits hq
      · rw [hprocs q hqp, hmax]
        refine h.fits i q ?_
        rwa [← count_pos_iff, ← hcount q hqp, count_pos_iff]
    · rw [update_of_ne hi] at hq ⊢
      have hqp : q ≠ proc := fun hqp : q = proc => helse i hi (hqp ▸ hq)
      rw [hprocs q hqp]
      exact h.fits i q hq
  case procNum =>
    intro i
    rw [hrqs]
    obtain rfl | hi := eq_or_ne i rq
    · simpa using hnum
    · simpa [update_of_ne hi] using h.procNum i
  case maxTimeSlice =>
    intro i
    rw [hrqs]
    obtain rfl | hi := eq_or_ne i rq
    · simpa [hmax] using h.maxTimeSlice i
    · simpa [update_of_ne hi] using h.maxTimeSlice i

end Holding

/-! ### Into a run queue and out of it -/

/-- One process is queued, and keeps what does not depend on that. -/
structure Requeued (s s' : State) (proc : ProcId) : Prop where
  current : s'.current = s.current
  idleproc : s'.idleproc = s.idleproc
  other : ∀ q ≠ proc, s'.procs q = s.procs q
  state : (s'.procs proc).state = (s.procs proc).state
  pid : (s'.procs proc).pid = (s.procs proc).pid

namespace Requeued

variable (h : Requeued s s' proc)
include h

lemma state_eq (q : ProcId) : (s'.procs q).state = (s.procs q).state := by
  obtain rfl | hq := eq_or_ne q proc
  · exact h.state
  · rw [h.other q hq]

lemma pid_eq (q : ProcId) : (s'.procs q).pid = (s.procs q).pid := by
  obtain rfl | hq := eq_or_ne q proc
  · exact h.pid
  · rw [h.other q hq]

lemma waiting_iff (q : ProcId) : s'.Waiting q ↔ s.Waiting q := by
  rw [State.Waiting, State.Waiting, h.state_eq, h.current, h.idleproc]

end Requeued

section

variable (h : Holding s W) (hproc : proc ∉ W)
include h hproc

lemma rrEnqueue_holding (rq : Level) :
    ∃ s', rrEnqueue s proc rq = .ok s' ∧ Holding s' (insert proc W) ∧ Requeued s s' proc := by
  have hnone : ∀ i, proc ∉ (s.rqs i).runList := fun i hmem => hproc (h.mem_of_mem hmem)
  have hmax := h.maxTimeSlice rq
  refine ⟨_, if_neg (h.linked_iff_mem.not.mpr hproc), ?_, rfl, rfl, fun q hq => ?_, ?_, ?_⟩
  · refine h.replace proc rfl (fun q hq => ?_) (fun q hq => ?_) (fun i _ => hnone i) (fun _ => ?_)
      (fun _ => ?_) (fun hout => absurd (Set.mem_insert proc W) hout) (fun q hq => ?_) ?_ rfl
    · simp [State.setProc, update_of_ne hq]
    · simp [hq.symm]
    · -- a time slice that is used up or too long becomes the longest of the run queue
      refine ⟨by simp [State.setProc], ?_, ?_⟩ <;>
      · simp only [State.setProc, update_self]
        split_ifs <;> omega
    · simp [count_eq_zero.mpr (hnone rq)]
    · simp [hq]
    · simp [h.procNum rq]
  · simp [State.setProc, update_of_ne hq]
  · simp [State.setProc]
  · simp [State.setProc]

lemma mlfqEnqueue_holding :
    ∃ s', mlfqEnqueue s proc = .ok s' ∧ Holding s' (insert proc W) ∧ Requeued s s' proc := by
  rw [mlfqEnqueue, if_neg (h.linked_iff_mem.not.mpr hproc)]
  exact rrEnqueue_holding h hproc _

/-- The idle process is never queued. -/
lemma schedClassEnqueue_holding : ∃ s', schedClassEnqueue s proc = .ok s' ∧
      Holding s' {q | q ∈ W ∨ (q = proc ∧ q ≠ s.idleproc)} ∧ Requeued s s' proc := by
  rw [schedClassEnqueue]
  by_cases hidle : proc = s.idleproc
  · have hset : {q | q ∈ W ∨ (q = proc ∧ q ≠ s.idleproc)} = W := by grind
    rw [if_neg (not_not.mpr hidle), hset]
    exact ⟨s, rfl, h, rfl, rfl, fun _ _ => rfl, rfl, rfl⟩
  · have hset : {q | q ∈ W ∨ (q = proc ∧ q ≠ s.idleproc)} = insert proc W := by
      ext q
      constructor
      · grind
      · grind
    rw [if_pos hidle, hset]
    exact mlfqEnqueue_holding h hproc

end

lemma mlfqDequeue_holding (h : Holding s W) (hproc : proc ∈ W) :
    ∃ s', mlfqDequeue s proc = .ok s' ∧ Holding s' (W \ {proc}) ∧ s'.procs = s.procs ∧
      s'.idleproc = s.idleproc := by
  have hlinked : linked s proc := h.linked_iff_mem.mpr hproc
  have hone := h.mem proc hproc
  obtain ⟨rq, hmem⟩ := h.linked_iff_mem.mpr hproc
  have hrq := (h.fits rq proc hmem).rq
  -- the process is in no other run queue, so that only this one changes
  have helse : ∀ i ≠ rq, proc ∉ (s.rqs i).runList := fun i hne hmemi =>
    hne (Option.some.inj ((h.fits i proc hmemi).rq.symm.trans hrq))
  have hcount : (s.rqs rq).runList.count proc = 1 := by
    rw [← hone, State.timesQueued, Finset.sum_eq_single rq
      (fun i _ hi => count_eq_zero.mpr (helse i hi)) fun hrq => absurd (Finset.mem_univ rq) hrq]
  have hdequeue : mlfqDequeue s proc = rrDequeue s proc rq := by
    rw [mlfqDequeue, if_neg (not_not.mpr hlinked), hrq]
  refine ⟨_, hdequeue.trans ((if_neg (not_not.mpr hlinked)).trans (if_neg (not_not.mpr hrq))), ?_, rfl, rfl⟩
  · refine h.replace proc (r := { s.rqs rq with
        runList := (s.rqs rq).runList.erase proc, procNum := (s.rqs rq).procNum - 1 })
      ?_ (fun _ _ => rfl) (fun q hq => ?_) helse (fun _ => ?_) (fun hin => absurd rfl hin.2)
      (fun _ => ?_) (fun q hq => ?_) ?_ rfl
    · funext i
      obtain rfl | hi := eq_or_ne i rq
      · simp
      · simp only [update_of_ne hi]
        rw [erase_of_not_mem (helse i hi)]
    · simp [count_erase_of_ne hq]
    · grind [count_erase_self]
    · simp [count_erase_self, hcount]
    · simp [hq]
    · simp [h.procNum rq, length_erase_of_mem hmem]

/-! ### The next process -/

/-- The loop goes on while the run queues are empty. -/
lemma pickNextLoop_succ_eq_none_iff (left : ℕ) (rq : Level) : pickNextLoop s (left + 1) rq = none ↔
      (s.rqs rq).runList = [] ∧ pickNextLoop s left (rq + 1) = none := by
  cases hlist : (s.rqs rq).runList with
  | nil | cons => simp [pickNextLoop, rrPickNext, hlist]

/-- The loop visits all four run queues. -/
lemma mlfqPickNext_eq_none_iff : mlfqPickNext s = none ↔ ∀ i, (s.rqs i).runList = [] := by
  rw [mlfqPickNext]
  iterate 4 rw [pickNextLoop_succ_eq_none_iff]
  simp [pickNextLoop, Fin.forall_fin_succ]

/-- What the loop returns is queued. -/
lemma mem_of_pickNextLoop {left : ℕ} {rq : Level} (hnext : pickNextLoop s left rq = some proc) :
    ∃ i, proc ∈ (s.rqs i).runList := by
  induction left generalizing rq with
  | zero => cases hnext
  | succ left ih =>
    rw [pickNextLoop] at hnext
    cases hlist : (s.rqs rq).runList with
    | nil | cons => grind [rrPickNext]

/-! ### The steps -/

/-- The run queues hold the processes that wait, which have pids of their own. -/
structure Inv (s : State) : Prop where
  holding : Holding s {q | s.Waiting q}
  pids : ∀ q ≠ s.idleproc, (s.procs q).state = .runnable ∨ q = s.current →
    lcpuCount ≤ (s.procs q).pid

namespace Inv

lemma queuesOk (h : Inv s) : QueuesOk s where
  queued q := by
    split_ifs with hq
    · exact h.holding.mem q hq
    · exact h.holding.notMem q hq
  procNum := h.holding.procNum
  timeSlice i q hq := ⟨(h.holding.fits i q hq).one_le, (h.holding.fits i q hq).le_max⟩
  pickNext := mlfqPickNext_eq_none_iff

/-- One process that does not wait changes, and does not wait then either. -/
lemma setProc (h : Inv s) (hproc : ¬s.Waiting proc) {p : Proc}
    (hwait : p.state = .runnable → proc = s.current ∨ proc = s.idleproc)
    (hpid : proc ≠ s.idleproc → p.state = .runnable ∨ proc = s.current → lcpuCount ≤ p.pid) :
    Inv (s.setProc proc p) := by
  have hsame : {q | (s.setProc proc p).Waiting q} = {q | s.Waiting q} := by
    ext q
    obtain rfl | hq := eq_or_ne q proc
    · refine iff_of_false (fun hwaiting => ?_) hproc
      obtain ⟨hstate, hcurrent, hidle⟩ := hwaiting
      simp only [State.setProc, update_self] at hstate
      exact (hwait hstate).elim hcurrent hidle
    · simp [State.Waiting, State.setProc, update_of_ne hq]
  refine ⟨hsame ▸ h.holding.setProc hproc p, fun q hidle hq => ?_⟩
  obtain rfl | hqp := eq_or_ne q proc
  · simp only [State.setProc, update_self] at hq ⊢
    exact hpid hidle hq
  · simp only [State.setProc, update_of_ne hqp] at hq ⊢
    exact h.pids q hidle hq

lemma not_waiting_current : ¬s.Waiting s.current := fun hwaiting => hwaiting.2.1 rfl

/-- The current process changes, and keeps its pid. -/
lemma setCurrent (h : Inv s) {p : Proc} (hpid : p.pid = (s.procs s.current).pid) :
    Inv (s.setProc s.current p) :=
  h.setProc not_waiting_current (fun _ => .inl rfl) fun hidle _ => hpid ▸ h.pids s.current hidle (.inr rfl)

/-- The run queues hold the processes that wait, from one state to another in which the same
processes wait. -/
lemma of_requeued {r : State} (hr : Holding s W) (hstep : Requeued r s proc) (hW : ∀ q, q ∈ W ↔ r.Waiting q)
    (hpids : ∀ q ≠ r.idleproc, (r.procs q).state = .runnable ∨ q = r.current →
      lcpuCount ≤ (r.procs q).pid) : Inv s := by
  have hset : W = {q | s.Waiting q} := Set.ext fun q => (hW q).trans (hstep.waiting_iff q).symm
  refine ⟨hset ▸ hr, fun q hidle hq => ?_⟩
  rw [hstep.state_eq, hstep.current] at hq
  rw [hstep.pid_eq]
  exact hpids q (hstep.idleproc ▸ hidle) hq

end Inv

lemma wakeupProc_inv (h : Inv s) (proc : ProcId) : Ensures Panic.byCaller (wakeupProc s proc) Inv := by
  rw [wakeupProc]
  split_ifs with hzombie hstate
  · trivial
  · have hnot : ¬s.Waiting proc := fun hwaiting => hstate hwaiting.1
    dsimp only
    split_ifs with hcurrent hpid
    · trivial
    · have hpid : lcpuCount ≤ (s.procs proc).pid := by
        simpa [State.setProc] using hpid
      obtain ⟨s', hs', hholding, hrequeued⟩ := schedClassEnqueue_holding
        (h.holding.setProc hnot { s.procs proc with state := .runnable, waitState := 0 }) hnot
      rw [hs', Ensures.ok_iff]
      refine Inv.of_requeued hholding hrequeued (fun q => ?_) fun q hq hready => ?_
      · obtain rfl | hqp := eq_or_ne q proc
        · have hne : q ≠ s.current := hcurrent
          simp [State.Waiting, State.setProc, hstate, hne]
        · simp [State.Waiting, State.setProc, hqp]
      · obtain rfl | hqp := eq_or_ne q proc
        · simpa [State.setProc] using hpid
        · simp only [State.setProc, update_of_ne hqp] at hready ⊢
          exact h.pids q hq hready
    · -- a process that is woken between going to sleep and calling `schedule` just runs on
      obtain rfl : proc = s.current := not_not.mp hcurrent
      exact h.setCurrent rfl
  · exact h

/-- All processes that can run are queued, before the next one is chosen among them. -/
structure Ready (s : State) : Prop where
  holding : Holding s {q | (s.procs q).state = .runnable ∧ q ≠ s.idleproc}
  pids : ∀ q ≠ s.idleproc, (s.procs q).state = .runnable → lcpuCount ≤ (s.procs q).pid

lemma putBack_ready (h : Inv s) : ∃ s', putBack s = .ok s' ∧ Ready s' := by
  rw [putBack]
  have hr : Inv (s.setProc s.current { s.procs s.current with needResched := false }) :=
    h.setCurrent rfl
  set r := s.setProc s.current { s.procs s.current with needResched := false }
  by_cases hstate : (r.procs r.current).state = .runnable ∧ (r.procs r.current).pid ≥ lcpuCount
  · obtain ⟨s', hs', hholding, hrequeued⟩ :=
      schedClassEnqueue_holding hr.holding (Inv.not_waiting_current)
    refine ⟨s', (if_pos hstate).trans hs', ?_, fun q hq hready => ?_⟩
    · convert hholding using 1
      ext q
      rw [Set.mem_ofPred_eq, hrequeued.state_eq, hrequeued.idleproc]
      obtain rfl | hq := eq_or_ne q r.current
      · simp [State.Waiting, hstate.1]
      · simp [State.Waiting, hq]
    · rw [hrequeued.state_eq] at hready
      rw [hrequeued.pid_eq]
      exact hr.pids q (hrequeued.idleproc ▸ hq) (.inl hready)
  · refine ⟨r, if_neg hstate, ?_, fun q hq hready => hr.pids q hq (.inl hready)⟩
    convert hr.holding using 1
    ext q
    constructor
    · rintro ⟨hready, hq⟩
      refine ⟨hready, ?_, hq⟩
      rintro rfl
      exact hstate ⟨hready, hr.pids _ hq (.inr rfl)⟩
    · exact fun ⟨hready, _, hq⟩ => ⟨hready, hq⟩

/-- A process gets the CPU: all others that can run are still queued. -/
lemma procRun_inv {next : ProcId}
    (h : Holding s {q | (s.procs q).state = .runnable ∧ q ≠ next ∧ q ≠ s.idleproc})
    (hpids : ∀ q ≠ s.idleproc, (s.procs q).state = .runnable ∨ q = next →
      lcpuCount ≤ (s.procs q).pid) : Inv (procRun s next) := by
  have hsame : ∀ q, ((procRun s next).procs q).state = (s.procs q).state ∧
      ((procRun s next).procs q).pid = (s.procs q).pid := by
    intro q
    obtain rfl | hq := eq_or_ne q next
    · simp [procRun, State.setProc]
    · simp [procRun, State.setProc, update_of_ne hq]
  have hset : {q | (procRun s next).Waiting q} =
      {q | (s.procs q).state = .runnable ∧ q ≠ next ∧ q ≠ s.idleproc} := by
    ext q
    rw [Set.mem_ofPred_eq, State.Waiting, (hsame q).1]
    rfl
  refine ⟨?_, fun q hidle hq => ?_⟩
  · rw [hset]
    refine h.congr rfl fun q hq => ?_
    simp [procRun, State.setProc, update_of_ne hq.2.1]
  · rw [(hsame q).1] at hq
    rw [(hsame q).2]
    exact hpids q hidle hq

lemma runNext_inv (h : Ready s) : Yields (runNext s) Inv := by
  rw [runNext]
  cases hnext : mlfqPickNext s with
  | none =>
    refine ⟨_, rfl, procRun_inv ?_ fun q hidle hq => ?_⟩
    · simpa using h.holding
    · exact h.pids q hidle (hq.resolve_right hidle)
  | some next =>
    obtain ⟨i, hmem⟩ := mem_of_pickNextLoop hnext
    have hready := h.holding.mem_of_mem hmem
    obtain ⟨s', hs', hholding, hprocs, hidleproc⟩ := mlfqDequeue_holding h.holding hready
    refine ⟨procRun s' next, ?_, procRun_inv ?_ fun q hidle hq => ?_⟩
    · dsimp only
      rw [hs', ok_bind, pure_eq_ok]
    · convert hholding using 1
      ext q
      grind
    · rw [hprocs] at hq ⊢
      rw [hidleproc] at hidle
      refine h.pids q hidle (hq.elim id ?_)
      rintro rfl
      exact hready.1

section

variable (h : Inv s)
include h

lemma schedule_inv : Yields (schedule s) Inv := by
  grind [putBack_ready, runNext_inv, schedule, ok_bind]

/-- Each timer that expires wakes its process. -/
lemma expireLoop_inv (expired : List ProcId) : Ensures Panic.byCaller (expireLoop s expired) Inv := by
  induction expired generalizing s with
  | nil => exact h
  | cons proc rest ih =>
    rw [expireLoop]
    split_ifs with hwait
    · trivial
    · exact (wakeupProc_inv h proc).bind fun _ hs' => ih hs'

lemma schedClassProcTick_inv : Inv (schedClassProcTick s s.current) := by
  rw [schedClassProcTick]
  split_ifs with hidle
  · exact h.setCurrent rfl
  · exact h.setCurrent rfl

lemma fork_inv (hproc : s.Fresh proc) (pid : ℤ) : Inv (fork s proc pid) := by
  obtain ⟨hcurrent, -, hstate⟩ := hproc
  rw [fork]
  have hhalf : Inv (s.setProc s.current { s.procs s.current with
      timeSlice := (s.procs s.current).timeSlice - (s.procs s.current).timeSlice / 2 }) :=
    h.setCurrent rfl
  refine hhalf.setProc (fun hwaiting => ?_) (fun hrunnable => ?_) fun _ => ?_
  · have hrunnable := hwaiting.1
    simp only [State.setProc, update_of_ne hcurrent] at hrunnable
    rw [hrunnable] at hstate
    simp at hstate
  · cases hrunnable
  · rintro (hrunnable | hq)
    · cases hrunnable
    · exact absurd hq hcurrent

/-- Each step keeps the invariant, or stops at an assertion about what it is called for. -/
lemma step_inv (e : Event) : Ensures Panic.byCaller (step s e) Inv := by
  cases e with
  | fork proc pid =>
    rw [step]
    split_ifs with hproc
    · exact fork_inv h hproc pid
    · exact h
  | wakeup proc => exact wakeupProc_inv h proc
  | schedule => exact Ensures.of_ok (schedule_inv h)
  | tick expired => exact (expireLoop_inv h expired).bind fun _ hs' => schedClassProcTick_inv hs'
  | sleep waitState => exact h.setCurrent rfl
  | exit =>
    rw [step]
    split_ifs with hidle
    · trivial
    · exact h.setCurrent rfl

end

lemma schedInit_inv (idleproc : ProcId) : Inv (schedInit idleproc) := by
  have hnone : ∀ q, ¬(schedInit idleproc).Waiting q := by
    rintro q ⟨hstate, hcurrent, -⟩
    have hq : q ≠ idleproc := hcurrent
    simp [schedInit, update_of_ne hq, allocProc] at hstate
  refine ⟨⟨fun q hq => absurd hq (hnone q), fun q _ => ?_, ?_, fun _ => rfl, ?_⟩, ?_⟩
  · simp [State.timesQueued, schedInit]
  · simp [schedInit]
  · intro i
    exact Nat.mul_pos (by decide) (Nat.two_pow_pos i.val)
  · rintro q hidle (hstate | hcurrent)
    · exact absurd ⟨hstate, hidle, hidle⟩ (hnone q)
    · exact absurd hcurrent hidle

/-- A run keeps the invariant. -/
lemma run_inv (h : Inv s) (events : List Event) : Ensures Panic.byCaller (run s events) Inv := by
  induction events generalizing s with
  | nil => exact h
  | cons e es ih => exact (step_inv h e).bind fun _ hs' => ih hs'

/-- **The run queues.** Whatever is created, woken up, put to sleep, scheduled and ended, in any order,
no assertion about the run queues fails, and in every state that is reached the run queues hold the
processes that wait for the CPU, each once, with lengths and time slices that fit. -/
theorem run_queues_hold_waiting (idleproc : ProcId) (events : List Event) :
    Except.Ensures Panic.byCaller (run (schedInit idleproc) events) QueuesOk :=
  (run_inv (schedInit_inv idleproc) events).mono fun _ h => h.queuesOk

end UcoreKernel.Mlfq
