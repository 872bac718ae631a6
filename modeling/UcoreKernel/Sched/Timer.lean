import UcoreKernel.Lib.DeltaList
import UcoreKernel.Lib.Except
import UcoreKernel.Sched.Sched

/-!
The timer list refines a set of absolute deadlines.

`entries` reads the list of `sched.c` as a delta-encoded list, and every function of the timer
interface is one of the operations of `DeltaList` on it: `entries_addTimerLoop`,
`entries_passExpires`, `expireLoop_ensures`. From these, one lemma for each operation says what it
does to the pending timers (`Pending s t p n`: the timer `t` wakes `p` in `n` ticks), and the
results about whole runs follow by induction.
-/

namespace UcoreKernel.Sched

open UcoreKernel.Except (Ensures)
open DeltaList Function List

variable {Rq : Type} {sc : SchedClass Rq} {s s' : SchedState Rq} {ts ts' : TimerId → Timer}
  {l : List TimerId} {t t₀ : TimerId} {p q : ProcId} {m n : ℕ} {w log : List (TimerId × ProcId)}

/-! ### The list as a delta-encoded list -/

/-- The timers of a list with their distances. -/
def entries (ts : TimerId → Timer) (l : List TimerId) : List (TimerId × ℕ) :=
  l.map fun t => (t, (ts t).expires.toNat)

section

variable (ts : TimerId → Timer)

@[simp] lemma entries_nil : entries ts [] = [] := rfl

@[simp] lemma entries_cons (t : TimerId) (l : List TimerId) :
    entries ts (t :: l) = (t, (ts t).expires.toNat) :: entries ts l := rfl

@[simp] lemma map_fst_entries (l : List TimerId) : (entries ts l).map Prod.fst = l := by
  simp [entries, comp_def]

end

/-- The entries depend on the listed timers only. -/
lemma entries_congr (h : ∀ t ∈ l, ts' t = ts t) : entries ts' l = entries ts l :=
  map_congr_left fun t ht => by rw [h t ht]

section

variable (ts : TimerId → Timer)

@[simp] lemma setExpires_same (t : TimerId) (e : BitVec 32) :
    setExpires ts t e t = { ts t with expires := e } := by simp [setExpires]

@[simp] lemma setExpires_ne (e : BitVec 32) (h : t ≠ t₀) :
    setExpires ts t₀ e t = ts t := by simp [setExpires, h]

/-- No function of the timer list touches the process of a timer. -/
lemma setExpires_proc (t₀ t : TimerId) (e : BitVec 32) : (setExpires ts t₀ e t).proc = (ts t).proc := by
  by_cases h : t = t₀ <;> simp [h]

lemma entries_setExpires_notMem (e : BitVec 32) (h : t ∉ l) : entries (setExpires ts t e) l = entries ts l :=
  entries_congr fun _ ht' => setExpires_ne ts e fun hEq => h (hEq ▸ ht')

end

/-! ### `add_timer` -/

section

variable (l : List TimerId) (ts : TimerId → Timer)

/-- The loop leaves every timer that is not on its way alone. -/
lemma addTimerLoop_other (ht : t ≠ t₀) (hl : t ∉ l) : (addTimerLoop t₀ l ts).2 t = ts t := by
  induction l generalizing ts with
  | nil => rfl
  | cons next le ih =>
    rw [mem_cons, not_or] at hl
    rw [addTimerLoop]
    split_ifs
    · simp [hl.1]
    · simp [ih _ hl.2, ht]

lemma addTimerLoop_proc (t : TimerId) : ((addTimerLoop t₀ l ts).2 t).proc = (ts t).proc := by
  induction l generalizing ts with
  | nil => rfl
  | cons next le ih =>
    rw [addTimerLoop]
    split_ifs
    · exact setExpires_proc ts _ _ _
    · exact (ih _).trans (setExpires_proc ts _ _ _)

/-- The loop of `add_timer` is insertion into the delta-encoded list. -/
lemma entries_addTimerLoop (hl : l.Nodup) (ht : t₀ ∉ l) :
    entries (addTimerLoop t₀ l ts).2 (addTimerLoop t₀ l ts).1
      = insertAt t₀ (ts t₀).expires.toNat (entries ts l) := by
  induction l generalizing ts with
  | nil => rfl
  | cons next le ih =>
    rw [nodup_cons] at hl
    rw [mem_cons, not_or] at ht
    rw [addTimerLoop, entries_cons, insertAt]
    by_cases h : (ts t₀).expires < (ts next).expires
    · have hsub := BitVec.toNat_sub_of_le (BitVec.le_of_lt h)
      rw [if_pos h, if_pos (BitVec.lt_def.mp h)]
      simp only [entries_cons, setExpires_ne _ _ ht.1, setExpires_same, entries_setExpires_notMem _ _ hl.1, hsub]
    · have hsub := BitVec.toNat_sub_of_le (BitVec.not_lt.mp h)
      have hnext := addTimerLoop_other le (setExpires ts t₀ ((ts t₀).expires - (ts next).expires)) (Ne.symm ht.1) hl.1
      rw [setExpires_ne _ _ (Ne.symm ht.1)] at hnext
      rw [if_neg h, if_neg (mt BitVec.lt_def.mpr h)]
      grind [entries_cons, setExpires_same, entries_setExpires_notMem]

end

/-! ### `del_timer` -/

lemma listNext_mem (h : listNext t₀ l = some t) : t ∈ l := by
  induction l with
  | nil => simp [listNext] at h
  | cons x l ih =>
    rw [listNext] at h
    split_ifs at h
    · exact .tail _ (mem_of_mem_head? h)
    · exact .tail _ (ih h)

section

variable (ts : TimerId → Timer)

lemma passExpires_proc (l : List TimerId) (t₀ t : TimerId) : (passExpires ts l t₀ t).proc = (ts t).proc := by
  rw [passExpires]
  split_ifs
  · cases listNext t₀ l with
    | none => rfl
    | some next => exact setExpires_proc ts _ _ _
  · rfl

/-- Only timers of the list are changed. -/
lemma passExpires_notMem (h : t ∉ l) : passExpires ts l t₀ t = ts t := by
  rw [passExpires]
  split_ifs
  · cases hn : listNext t₀ l with
    | none => rfl
    | some next => exact setExpires_ne ts _ fun hEq => h (hEq ▸ listNext_mem hn)
  · rfl

lemma passExpires_cons (h : t ≠ t₀) : passExpires ts (t :: l) t₀ = passExpires ts l t₀ := by
  simp only [passExpires, listNext, if_neg h]

end

/-- Unlinking a timer is removal from the delta-encoded list. The sum does not wrap, because it
is at most the distance of the next timer from the start. -/
lemma entries_passExpires {b : ℕ} (l : List TimerId) (ts : TimerId → Timer) (hl : l.Nodup) (ht : t₀ ∈ l)
    (hb : ∀ p ∈ dues b (entries ts l), p.2 < 2 ^ 32) :
    entries (passExpires ts l t₀) (l.erase t₀) = remove t₀ (entries ts l) := by
  induction l generalizing b with
  | nil => simp at ht
  | cons x l ih =>
    obtain ⟨hx, hl⟩ := nodup_cons.mp hl
    obtain rfl | hxt := eq_or_ne x t₀
    · cases l with
      | nil => simp [remove]
      | cons z l =>
        have hz := hl.notMem
        have hsum := hb (z, b + (ts x).expires.toNat + (ts z).expires.toNat) (by simp)
        have hadd : ((ts z).expires + (ts x).expires).toNat = (ts x).expires.toNat + (ts z).expires.toNat := by grind
        rw [erase_cons_head, entries_cons ts x, entries_cons ts z, remove, if_pos rfl, passExpires,
          listNext, if_pos rfl]
        by_cases hzero : (ts x).expires = 0
        · simp [hzero]
        · simp only [ne_eq, hzero, not_false_eq_true, if_true, head?_cons, entries_cons, setExpires_same,
            entries_setExpires_notMem _ _ hz, hadd]
    · have ht' : t₀ ∈ l := (mem_cons.mp ht).resolve_left (Ne.symm hxt)
      have hih := ih hl ht' fun p hp => hb p (.tail _ hp)
      rw [erase_cons_tail (by simpa using hxt), entries_cons, passExpires_cons _ hxt,
        passExpires_notMem _ hx, hih, entries_cons]
      cases l with
      | nil => simp at ht'
      | cons z l => rw [entries_cons, remove, if_neg hxt]

/-! ### `run_timer_list` -/

/-- The timers are the same. -/
def SameTimers (s s' : SchedState Rq) : Prop := s'.timerList = s.timerList ∧ s'.timers = s.timers

lemma schedClassProcTick_frame (sc : SchedClass Rq) (s : SchedState Rq) (p : ProcId) :
    SameTimers s (schedClassProcTick sc s p) := by
  rw [schedClassProcTick]
  split_ifs <;> exact ⟨rfl, rfl⟩

/-- Waking a process leaves the timers alone, and does not fail the assertion on them. -/
lemma wakeupProc_ensures : Ensures (· ≠ .headExpires) (wakeupProc sc s p) (SameTimers s) := by
  have hqueue : ∀ s1, Ensures (· ≠ .headExpires) (schedClassEnqueue sc s1 p)
      (SameTimers s1) := fun s1 => by
    rw [schedClassEnqueue]
    refine .ite (fun _ => ?_) fun _ => ⟨rfl, rfl⟩
    cases sc.enqueue s1.rq (s1.procs p) with
    | none => simp
    | some r => exact ⟨rfl, rfl⟩
  refine .ite (fun _ => by simp) fun _ => .ite (fun _ => ?_) fun _ => ⟨rfl, rfl⟩
  refine .ite (fun _ => ?_) fun _ => ⟨rfl, rfl⟩
  exact .ite (fun _ => by simp) fun _ => hqueue _

/-- Expiring the first timer of the list wakes its process and unlinks it. -/
lemma expireTimer_ensures (hs : s.timerList = t :: l) (hzero : (s.timers t).expires = 0) :
    Ensures (· ≠ .headExpires) (expireTimer sc s t) fun r =>
      r.1.timerList = l ∧ r.1.timers = s.timers ∧ (s.timers t).proc = some r.2 := by
  rw [expireTimer]
  cases hp : (s.timers t).proc with
  | none => simp
  | some q =>
    refine .ite (fun _ => by simp) fun _ => wakeupProc_ensures.bind fun _ hsame => ?_
    obtain ⟨hlist, htimers⟩ := hsame
    simp [delTimer, hlist, hs, htimers, passExpires, hzero]

/-- The loop wakes the processes of the leading timers at distance zero, in their order, and
unlinks exactly these timers. -/
lemma expireLoop_ensures (hs : s.timerList = l) : Ensures (· ≠ .headExpires) (expireLoop sc l s) fun r =>
      entries s.timers r.1.timerList = dropZeros (entries s.timers l) ∧ r.1.timers = s.timers ∧
        r.2.map Prod.fst = dueNow (entries s.timers l) ∧ ∀ x ∈ r.2, (s.timers x.1).proc = some x.2 := by
  induction l generalizing s with
  | nil => simp [expireLoop, hs, dropZeros, dueNow]
  | cons timer le ih =>
    refine .ite (fun hzero => ?_) fun hzero => ?_
    · refine (expireTimer_ensures hs hzero).bind fun x hx => ?_
      obtain ⟨hlist, htimers, hproc⟩ := hx
      refine (ih hlist).bind fun r hr => ?_
      obtain ⟨hent, htimers', hdue, hw⟩ := hr
      rw [htimers] at hent hdue hw htimers'
      have hzero' : (s.timers timer).expires.toNat = 0 := by rw [hzero]; rfl
      refine ⟨?_, htimers', ?_, ?_⟩
      · rw [entries_cons, dropZeros, if_pos hzero']
        exact hent
      · rw [entries_cons, dueNow, if_pos hzero', map_cons, hdue]
      · exact forall_mem_cons.mpr ⟨hproc, hw⟩
    · have hne : (s.timers timer).expires.toNat ≠ 0 := fun hEq =>
        hzero (BitVec.eq_of_toNat_eq (by simpa using hEq))
      simp [dropZeros, dueNow, hne, hs]

/-! ### The invariant and the pending timers -/

/-- The invariant of the timer list. -/
structure Inv (s : SchedState Rq) : Prop where
  nodup : s.timerList.Nodup
  headPos : HeadPos (entries s.timers s.timerList)
  range : ∀ p ∈ dues 0 (entries s.timers s.timerList), p.2 < 2 ^ 32
  proc : ∀ t ∈ s.timerList, (s.timers t).proc.isSome

/-- The timer `t` is on the list and wakes `p` in `n` ticks. -/
def Pending (s : SchedState Rq) (t : TimerId) (p : ProcId) (n : ℕ) : Prop :=
  (t, n) ∈ dues 0 (entries s.timers s.timerList) ∧ (s.timers t).proc = some p

lemma Pending.mem (h : Pending s t p n) : t ∈ s.timerList := by
  simpa using exists_mem_dues.mp ⟨n, h.1⟩

lemma Pending.pos (hs : Inv s) (h : Pending s t p n) : 0 < n := pos_of_mem_dues hs.headPos h.1

lemma Pending.unique (hs : Inv s) (hm : Pending s t p m) (hn : Pending s t q n) : p = q ∧ m = n :=
  ⟨Option.some.inj (hm.2.symm.trans hn.2), dues_unique (by simpa using hs.nodup) hm.1 hn.1⟩

/-- The empty list satisfies the invariant. -/
lemma inv_of_timerList_eq_nil (h : s.timerList = []) : Inv s :=
  ⟨by simp [h], by simp [h, HeadPos], by simp [h], by simp [h]⟩

/-! ### One lemma for each operation -/

/-- The timers of the list are the same. -/
lemma Inv.congr (hs : Inv s) (hlist : s'.timerList = s.timerList) (h : ∀ t ∈ s.timerList, s'.timers t = s.timers t) :
    Inv s' ∧ ∀ t p n, Pending s' t p n ↔ Pending s t p n := by
  have hent : entries s'.timers s'.timerList = entries s.timers s.timerList := by rw [hlist, entries_congr h]
  refine ⟨⟨hlist ▸ hs.nodup, hent ▸ hs.headPos, hent ▸ hs.range, fun t ht => ?_⟩, fun t p n => ?_⟩
  · rw [hlist] at ht
    rw [h t ht]
    exact hs.proc t ht
  · rw [Pending, hent]
    refine and_congr_right fun hn => ?_
    rw [h t (by simpa using exists_mem_dues.mp ⟨n, hn⟩)]

lemma addTimer_ensures (hs : Inv s) : Ensures (· ≠ .headExpires) (addTimer s t₀) fun s' =>
      Inv s' ∧ ∃ p₀, (s.timers t₀).proc = some p₀ ∧ ∀ t p n, Pending s' t p n ↔
        (t = t₀ ∧ p = p₀ ∧ n = (s.timers t₀).expires.toNat) ∨ Pending s t p n := by
  refine .ite (fun _ => by simp) fun hargs => .ite (fun _ => by simp) fun hmem => ?_
  obtain ⟨hpos, hsome⟩ := not_not.mp hargs
  obtain ⟨p₀, hp0⟩ := Option.isSome_iff_exists.mp hsome
  have hpos' : 0 < (s.timers t₀).expires.toNat := by simpa [BitVec.lt_def] using hpos
  have hent := entries_addTimerLoop s.timerList s.timers hs.nodup hmem
  have hperm : (addTimerLoop t₀ s.timerList s.timers).1.Perm (t₀ :: s.timerList) := by
    grind [perm_keys_insertAt, map_fst_entries]
  refine ⟨⟨?_, ?_, ?_, ?_⟩, p₀, hp0, ?_⟩
  · exact hperm.nodup_iff.mpr (nodup_cons.mpr ⟨hmem, hs.nodup⟩)
  · rw [hent]
    exact headPos_insertAt hpos' hs.headPos
  · rw [hent]
    intro p hp
    obtain rfl | hp := mem_dues_insertAt.mp hp
    · simpa using (s.timers t₀).expires.isLt
    · exact hs.range p hp
  · intro t ht
    rw [addTimerLoop_proc]
    obtain rfl | ht := mem_cons.mp (hperm.mem_iff.mp ht)
    · exact hsome
    · exact hs.proc t ht
  · grind [Pending, mem_dues_insertAt, addTimerLoop_proc]

/-- `del_timer` removes its timer and leaves every other deadline where it was. -/
lemma delTimer_spec (t₀ : TimerId) (hs : Inv s) : Inv (delTimer s t₀) ∧
      ∀ t p n, Pending (delTimer s t₀) t p n ↔ Pending s t p n ∧ t ≠ t₀ := by
  by_cases hmem : t₀ ∈ s.timerList
  · have hent := entries_passExpires s.timerList s.timers hs.nodup hmem hs.range
    have hkeys : ((entries s.timers s.timerList).map Prod.fst).Nodup := by simpa using hs.nodup
    rw [delTimer, if_pos hmem]
    refine ⟨⟨hs.nodup.erase _, hent ▸ headPos_remove hs.headPos, ?_, fun t ht => ?_⟩, fun t p n => ?_⟩
    · rw [hent]
      exact fun p hp => hs.range p ((mem_dues_remove hkeys).mp hp).1
    · rw [passExpires_proc]
      exact hs.proc t (mem_of_mem_erase ht)
    · simp only [Pending, hent, mem_dues_remove hkeys, passExpires_proc]
      tauto
  · rw [delTimer, if_neg hmem]
    exact ⟨hs, fun t p n => ⟨fun h => ⟨h, fun hEq => hmem (hEq ▸ h.mem)⟩, fun h => h.1⟩⟩

/-- A tick wakes exactly the processes of the timers due at it, each once, and brings every
other deadline one tick nearer. -/
lemma runTimerList_ensures (hs : Inv s) : Ensures (· ≠ .headExpires) (runTimerList sc s) fun r =>
      Inv r.1 ∧ (r.2.map Prod.fst).Nodup ∧ (∀ t p, (t, p) ∈ r.2 ↔ Pending s t p 1) ∧
        ∀ t p n, Pending r.1 t p n ↔ Pending s t p (n + 1) ∧ 0 < n := by
  cases hl : s.timerList with
  | nil =>
    have hnone : ∀ t p n, ¬Pending s t p n := fun t p n hp => by simpa [hl] using hp.mem
    obtain ⟨hlist, htimers⟩ := schedClassProcTick_frame sc s s.current
    obtain ⟨hinv, hpend⟩ := hs.congr hlist fun t _ => by rw [htimers]
    simp [runTimerList, hl, hinv, hpend, hnone]
  | cons timer le =>
    have hnd : (timer :: le).Nodup := hl ▸ hs.nodup
    have hne : (s.timers timer).expires.toNat ≠ 0 := by
      have := hs.headPos
      rw [hl, entries_cons] at this
      exact Nat.pos_iff_ne_zero.mp this
    have hzero : (s.timers timer).expires ≠ 0 := fun hEq => hne (hEq ▸ rfl)
    have hpred : ((s.timers timer).expires - 1).toNat = (s.timers timer).expires.toNat - 1 :=
      BitVec.toNat_sub_of_le (BitVec.le_def.mpr (Nat.one_le_iff_ne_zero.mpr hne))
    -- decrementing the first timer is one unit of time on the encoded list
    have htick : entries (setExpires s.timers timer ((s.timers timer).expires - 1)) (timer :: le)
        = tick (entries s.timers s.timerList) := by
      grind [entries_cons, setExpires_same, entries_setExpires_notMem, tick]
    rw [runTimerList]
    simp only [hl, if_neg hzero]
    refine Ensures.bind (expireLoop_ensures ?_) ?_
    · rfl
    rintro ⟨s2, w⟩ ⟨hent, htimers2, hdue, hw⟩
    obtain ⟨hlist, htimers⟩ := schedClassProcTick_frame sc s2 s2.current
    simp only [setExpires_proc] at hw hdue hent htimers2
    rw [htick] at hdue hent
    have hprocs : ∀ t, (s2.timers t).proc = (s.timers t).proc := fun t => by rw [htimers2, setExpires_proc]
    rw [← htimers2] at hent
    have hkeys := dueNow_append_dropZeros (tick (entries s.timers s.timerList))
    rw [map_fst_tick, map_fst_entries, ← hdue, ← hent, map_fst_entries] at hkeys
    have hnd' : (w.map Prod.fst ++ s2.timerList).Nodup := hkeys ▸ hs.nodup
    refine ⟨⟨?_, ?_, ?_, ?_⟩, hnd'.of_append_left, fun t p => ?_, fun t p n => ?_⟩
    · rw [hlist]
      exact hnd'.of_append_right
    · rw [hlist, htimers, hent]
      exact headPos_dropZeros _
    · rw [hlist, htimers, hent]
      rintro ⟨t, n⟩ hp
      have := hs.range (t, n + 1) ((mem_dues_tick hs.headPos).mp (mem_dues_dropZeros.mp hp).1)
      simp only at this ⊢
      omega
    · intro t ht
      rw [hlist] at ht
      rw [htimers, hprocs]
      exact hs.proc t (by rw [← hkeys]; exact mem_append_right _ ht)
    · have hmem : t ∈ w.map Prod.fst ↔ (t, 1) ∈ dues 0 (entries s.timers s.timerList) := by
        rw [hdue, mem_dueNow, mem_dues_tick hs.headPos]
      grind [Pending]
    · rw [Pending, hlist, htimers, hent, mem_dues_dropZeros, mem_dues_tick hs.headPos, hprocs, Pending]
      tauto

/-- What an operation makes of the pending timers. -/
def After (s : SchedState Rq) (t : TimerId) (p : ProcId) (n : ℕ) : TimerOp → Prop
  | .init _ _ _ => Pending s t p n
  | .add t₀ => (t = t₀ ∧ (s.timers t₀).proc = some p ∧ n = (s.timers t₀).expires.toNat) ∨ Pending s t p n
  | .del t₀ => Pending s t p n ∧ t ≠ t₀
  | .tick => Pending s t p (n + 1) ∧ 0 < n

/-- **One operation**: the assertion on the first distance holds, and ticks alone wake processes, those of the
timers that are due. -/
lemma step_ensures (op : TimerOp) (hs : Inv s) : Ensures (· ≠ .headExpires) (step sc s op) fun r =>
      Inv r.1 ∧ (r.2.map Prod.fst).Nodup ∧ (∀ t p, (t, p) ∈ r.2 ↔ op = .tick ∧ Pending s t p 1) ∧
        ∀ t p n, Pending r.1 t p n ↔ After s t p n op := by
  cases op with
  | init t₀ q e =>
    have hinit : Ensures (· ≠ .headExpires) (timerInit s t₀ q e) fun s' =>
        Inv s' ∧ ∀ t p n, Pending s' t p n ↔ Pending s t p n := by
      refine .ite (fun _ => by simp) fun _ => hs.congr rfl fun t _ => ?_
      grind
    exact hinit.bind fun s' ⟨hinv, hpend⟩ => ⟨hinv, nodup_nil, by simp, hpend⟩
  | add t₀ =>
    refine (addTimer_ensures hs).bind fun s' ⟨hinv, p0, hp0, hpend⟩ => ⟨hinv, nodup_nil, by simp, ?_⟩
    grind [After]
  | del t₀ => exact ⟨(delTimer_spec t₀ hs).1, nodup_nil, by simp, (delTimer_spec t₀ hs).2⟩
  | tick =>
    refine (runTimerList_ensures hs).mono fun r ⟨hinv, hnd, hw, hpend⟩ => ⟨hinv, hnd, ?_, hpend⟩
    simpa using hw

/-! ### The abstract set of deadlines -/

/-- A set of absolute deadlines: the number of ticks so far, and for each pending timer the tick
at which it is due and the process it wakes. -/
structure Deadlines where
  now : ℕ
  deadline : TimerId → Option (ℕ × ProcId)

namespace Deadlines

/-- No timer is pending. -/
def empty : Deadlines := ⟨0, fun _ => none⟩

/-- One operation; `e` and `p` are the two fields of the timer an `add` adds. -/
def step (a : Deadlines) (e : ℕ) (p : Option ProcId) : TimerOp → Deadlines
  | .init _ _ _ => a
  | .add t => { a with deadline := update a.deadline t (p.map fun q => (a.now + e, q)) }
  | .del t => { a with deadline := update a.deadline t none }
  | .tick => ⟨a.now + 1, fun t => (a.deadline t).filter fun d => a.now + 1 < d.1⟩

end Deadlines

/-- The fields of the timer an operation is about. -/
def opTimer (s : SchedState Rq) : TimerOp → Timer
  | .init t _ _ => s.timers t
  | .add t => s.timers t
  | .del t => s.timers t
  | .tick => ⟨0, none⟩

/-- The deadlines after a sequence of operations, run beside the list. -/
def deadlinesAfter (sc : SchedClass Rq) (s : SchedState Rq) (a : Deadlines) : List TimerOp → Deadlines
  | [] => a
  | op :: ops =>
    match step sc s op with
    | .ok r =>
      deadlinesAfter sc r.1 (a.step (opTimer s op).expires.toNat (opTimer s op).proc op) ops
    | .error _ => a

/-- The list represents the set of deadlines. -/
def Refines (s : SchedState Rq) (a : Deadlines) : Prop :=
  ∀ t d p, a.deadline t = some (d, p) ↔ ∃ n, d = a.now + n ∧ Pending s t p n

variable {a : Deadlines} {op : TimerOp} {ops : List TimerOp}

lemma refines_empty (h : s.timerList = []) : Refines s Deadlines.empty := by
  have hnone : ∀ t p n, ¬Pending s t p n := fun t p n hp => by simpa [h] using hp.mem
  simp [Refines, Deadlines.empty, hnone]

/-- Every operation keeps the refinement. -/
lemma Refines.step (hs' : Inv s') (ha : Refines s a) (hpend : ∀ t p n, Pending s' t p n ↔ After s t p n op) :
    Refines s' (a.step (opTimer s op).expires.toNat (opTimer s op).proc op) := by
  intro t d p
  cases op with
  | init t₀ q e =>
    simp only [Deadlines.step, hpend, After]
    exact ha t d p
  | add t₀ =>
    simp only [Deadlines.step, opTimer]
    obtain rfl | ht := eq_or_ne t t₀
    · rw [update_self, Option.map_eq_some_iff]
      constructor
      · rintro ⟨q, hq, hEq⟩
        cases hEq
        exact ⟨_, rfl, (hpend t _ _).mpr (.inl ⟨rfl, hq, rfl⟩)⟩
      · rintro ⟨n, rfl, hp⟩
        have hproc : (s.timers t).proc = some p := ((hpend t p n).mp hp).elim (·.2.1) fun h => h.2
        obtain ⟨-, rfl⟩ := hp.unique hs' ((hpend t p _).mpr (.inl ⟨rfl, hproc, rfl⟩))
        exact ⟨p, hproc, rfl⟩
    · rw [update_of_ne ht, ha t d p]
      simp [hpend, After, ht]
  | del t₀ =>
    simp only [Deadlines.step, hpend, After]
    by_cases ht : t = t₀
    · simp [ht]
    · rw [update_of_ne ht, ha t d p]
      simp [ht]
  | tick =>
    simp only [Deadlines.step, hpend, After, Option.filter_eq_some_iff, ha t d p, decide_eq_true_eq]
    constructor
    · rintro ⟨⟨n, rfl, hp⟩, hlt⟩
      obtain ⟨m, rfl⟩ : ∃ m, n = m + 1 := ⟨n - 1, by omega⟩
      exact ⟨m, by omega, hp, by omega⟩
    · grind

/-! ### Whole runs -/

variable (sc) in
/-- A run from a list that represents a set of deadlines keeps the invariant and the
refinement, and never fails the assertion on the first distance. -/
lemma run_ensures (ops : List TimerOp) (hs : Inv s) (ha : Refines s a) :
    Ensures (· ≠ .headExpires) (run sc s ops) fun r => Inv r.1 ∧ Refines r.1 (deadlinesAfter sc s a ops) := by
  induction ops generalizing s a with
  | nil => exact ⟨hs, ha⟩
  | cons op ops ih =>
    refine (step_ensures op hs).bind_eq fun r hstep ⟨hinv, _, _, hpend⟩ => ?_
    rw [deadlinesAfter, hstep]
    exact (ih hinv (ha.step hinv hpend)).bind fun _ h => h

/-- The number of ticks of a sequence. -/
def ticks (ops : List TimerOp) : ℕ := ops.count .tick

/-- The wakeups of one timer. -/
lemma filter_eq_nil (h : ∀ p, (t, p) ∉ w) : w.filter (·.1 = t) = [] := by
  grind [filter_eq_nil_iff]

/-- A timer that is not on the list, and is not added, is not woken. -/
lemma run_unlinked (hs : Inv s) (ht : ∀ p n, ¬Pending s t p n) (hadd : .add t ∉ ops) :
    Ensures (fun _ => True) (run sc s ops) fun r => r.2.filter (·.1 = t) = [] := by
  induction ops generalizing s with
  | nil => rfl
  | cons op ops ih =>
    rw [mem_cons, not_or] at hadd
    refine ((step_ensures op hs).tolerate fun _ _ => trivial).bind fun r ⟨hinv, _, hw, hpend⟩ => ?_
    -- the timer stays off the list, since only its own `add` could link it
    have hstay : ∀ p n, ¬Pending r.1 t p n := fun p n hp => by
      have hafter := (hpend t p n).mp hp
      cases op with
      | init _ _ _ => exact ht p n hafter
      | add t₀ => exact hafter.elim (fun h => hadd.1 (by rw [h.1])) (ht p n)
      | del _ => exact ht p n hafter.1
      | tick => exact ht p _ hafter.1
    refine (ih hinv hstay hadd.2).bind fun _ hr' => ?_
    rw [pure_eq_ok, Ensures.ok_iff, filter_append, hr', append_nil]
    exact filter_eq_nil fun p hp => ht p 1 ((hw t p).mp hp).2

variable (sc) in
/-- A pending timer that is neither deleted nor added again is woken once, by the tick it is due
at, and not before. -/
lemma run_pending (hs : Inv s) (hp : Pending s t p n) (hdel : .del t ∉ ops) (hadd : .add t ∉ ops) :
    Ensures (fun _ => True) (run sc s ops) fun r =>
      r.2.filter (·.1 = t) = if n ≤ ticks ops then [(t, p)] else [] := by
  induction ops generalizing s n with
  | nil =>
    have := hp.pos hs
    rw [ticks, count_nil, if_neg (by omega)]
    rfl
  | cons op ops ih =>
    rw [mem_cons, not_or] at hdel hadd
    refine ((step_ensures op hs).tolerate fun _ _ => trivial).bind fun r ⟨hinv, hnd, hw, hpend⟩ => ?_
    by_cases hdue : op = .tick ∧ n = 1
    · obtain ⟨rfl, rfl⟩ := hdue
      refine (run_unlinked hinv (fun q m hq => ?_) hadd.2).bind fun r' hr' => ?_
      · obtain ⟨hq, hm⟩ := (hpend t q m).mp hq
        have := (hp.unique hs hq).2
        omega
      · grind [pure_eq_ok, Ensures.ok_iff, filter_key_of_mem, ticks]
    · have hnone : r.2.filter (·.1 = t) = [] := filter_eq_nil fun q hq => by
        obtain ⟨htick, hq⟩ := (hw t q).mp hq
        exact hdue ⟨htick, (hp.unique hs hq).2⟩
      have hpos := hp.pos hs
      -- the timer is still pending, and one tick nearer after a tick
      have hp' : Pending r.1 t p (if op = .tick then n - 1 else n) := by
        rw [hpend]
        cases op with
        | init _ _ _ => exact hp
        | add t₀ => exact .inr hp
        | del t₀ => exact ⟨hp, fun hEq => hdel.1 (by rw [hEq])⟩
        | tick =>
          have hn : n ≠ 1 := fun hn => hdue ⟨rfl, hn⟩
          obtain ⟨m, rfl⟩ : ∃ m, n = m + 1 := ⟨n - 1, by omega⟩
          exact ⟨hp, by simp; omega⟩
      refine (ih hinv hp' hdel.2 hadd.2).bind fun r' hr' => ?_
      grind [pure_eq_ok, Ensures.ok_iff, ticks]

variable (sc) in
/-- **The timer list refines a set of absolute deadlines.**  For every sequence `pre` of timer
operations, run on a list that is empty at first: the assertion on the first distance holds; the
list represents the deadlines that the same operations set; a timer that is then added with
`expires = e`, and is neither deleted nor added again by the operations `mid` that follow, has
its process woken exactly once if `mid` has at least `e` ticks and not at all if it has fewer,
so that the wakeup is made by the `e`-th tick; and `del_timer` removes its timer and leaves every
other deadline. -/
theorem timer_list_refines_deadlines (s₀ : SchedState Rq) (h₀ : s₀.timerList = []) (pre : List TimerOp) :
    run sc s₀ pre ≠ .error .headExpires ∧
    ∀ s log, run sc s₀ pre = .ok (s, log) →
      Refines s (deadlinesAfter sc s₀ Deadlines.empty pre) ∧
      (∀ t mid s' log', run sc s (.add t :: mid) = .ok (s', log') →
        .del t ∉ mid → .add t ∉ mid →
        ∃ p, (s.timers t).proc = some p ∧
          log'.filter (fun x => x.1 = t) = if (s.timers t).expires.toNat ≤ ticks mid then [(t, p)] else []) ∧
      (∀ t₀ t p n, Pending (delTimer s t₀) t p n ↔ Pending s t p n ∧ t ≠ t₀) := by
  have hinv0 : Inv s₀ := inv_of_timerList_eq_nil h₀
  have hpre := run_ensures sc pre hinv0 (refines_empty h₀)
  refine ⟨fun herr => by simp [herr] at hpre, fun s log hrun => ?_⟩
  rw [hrun] at hpre
  obtain ⟨hinv, href⟩ := hpre
  refine ⟨href, fun t mid s' log' hmid hdel hadd => ?_, fun t₀ => (delTimer_spec t₀ hinv).2⟩
  obtain ⟨r, hstep, h⟩ := bind_eq_ok_iff.mp hmid
  obtain ⟨s1, hadded, hret⟩ := bind_eq_ok_iff.mp hstep
  cases hret
  have hspec : Ensures _ (addTimer s t) _ := addTimer_ensures hinv
  rw [hadded] at hspec
  obtain ⟨hinv1, p, hp, hpend⟩ := hspec
  obtain ⟨r', hrest, hret⟩ := bind_eq_ok_iff.mp h
  cases hret
  have hlog := run_pending sc hinv1 ((hpend t p _).mpr (.inl ⟨rfl, rfl, rfl⟩)) hdel hadd
  rw [hrest] at hlog
  exact ⟨p, hp, hlog⟩

/-- Two sleeping processes, `5` and `6`, and an empty timer list. -/
def twoSleepers : SchedState RunQueue where
  timerList := []
  timers := fun _ => ⟨0, none⟩
  procs := fun p => ⟨.sleeping, p, false, 0x80000002#32, 4⟩
  rq := ⟨[], 0, 8⟩
  current := 0
  idleproc := 0
  lcpuCount := 1

/-- Two timers with one deadline: the one added last is woken by the second tick after it was
added, while the other was added a tick earlier. -/
theorem timer_list_refines_deadlines_twoSleepers : ∃ s log s' log',
      run rrSchedClass twoSleepers
        [.init 1 (some 5) 2, .init 2 (some 6) 3, .add 2, .tick] = .ok (s, log) ∧
      run rrSchedClass s [.add 1, .tick, .tick] = .ok (s', log') ∧
      log'.filter (fun x => x.1 = 1) = [(1, 5)] := by
  have hall := timer_list_refines_deadlines rrSchedClass twoSleepers rfl
    [.init 1 (some 5) 2, .init 2 (some 6) 3, .add 2, .tick]
  obtain ⟨p, hp, hlog⟩ := (hall.2 _ _ rfl).2.1 1 [.tick, .tick] _ _ rfl (by decide) (by decide)
  refine ⟨_, _, _, _, rfl, rfl, ?_⟩
  rw [hlog, if_pos (by decide)]
  cases hp
  rfl

end UcoreKernel.Sched
