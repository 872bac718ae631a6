import UcoreKernel.Lib.Guarded

/-!
Events between processes: `sync/event.c`.

A sender puts its value into its own event box and itself into the queue of the receiver, and sleeps.
The receiver takes the first of its queue and leaves `WT_EVENT_SEND` in its flags. A timer or a kill
makes a sender runnable without taking it out of the queue, so that the receiver can still take it before
it runs; the sender tells by its flags what has happened. A receiver that exits empties its queue.

The kernel is not preempted, so the steps are the sections between two calls of `schedule`. Three
fields keep an account and are read by no function of the source: the calls of `ipc_event_send` in their
order, the result of each, and what `recv_event` has taken.

* `event_delivery`: in every run no assertion fails, a call that has returned 0 was taken once, by its
  target and with its value, and a call that has returned anything else was not taken.
-/

namespace UcoreKernel.EventBox

open Function List

/-- `enum proc_state`, as far as it matters; a process that does not exist counts as a zombie. -/
inductive ProcState where
  | sleeping
  | runnable
  | zombie
deriving DecidableEq

/-- `wait_state` -/
inductive WaitState where
  | none
  | eventSend
  | eventRecv
deriving DecidableEq

/-- `wakeup_flags` of a `wait_t` -/
inductive WakeupFlags where
  | interrupted
  | eventSend
deriving DecidableEq

/-- Where a process is: outside of this file, in `send_event` with its target, its flags and the number
of the call, or in `recv_event`. -/
inductive Pc where
  | out
  | sending (target : ℕ) (flags : WakeupFlags) (num : ℕ)
  | receiving
deriving DecidableEq

/-- A call of `ipc_event_send`. -/
structure Call where
  sender : ℕ
  target : ℕ
  event : ℤ
deriving DecidableEq

/-- What a call of `recv_event` has taken: the call of `ipc_event_send` that it belongs to, the receiver,
and what is stored. -/
structure Taken where
  num : ℕ
  receiver : ℕ
  pid : ℕ
  event : ℤ
deriving DecidableEq

/-- The state: of each process its state, its event box and where it is, and the account. -/
structure State where
  state : ℕ → ProcState
  waitState : ℕ → WaitState
  event : ℕ → ℤ
  queue : ℕ → List ℕ
  pc : ℕ → Pc
  calls : List Call
  results : ℕ → Option ℤ
  taken : List Taken

/-- The assertions. -/
inductive Panic where
  | wakeupProc
  | waitQueueDel
deriving DecidableEq

def eInval : ℤ := 3

def eTimeout : ℤ := 11

/-! ### The source -/

/-- `wakeup_proc` -/
def wakeupProc (s : State) (p : ℕ) : Except Panic State :=
  match s.state p with
  | .zombie => .error .wakeupProc
  | .runnable => .ok s
  | .sleeping => .ok { s with
      state := update s.state p .runnable
      waitState := update s.waitState p .none }

/-- `wait_queue_del` -/
def waitQueueDel (s : State) (owner q : ℕ) : Except Panic State :=
  if q ∈ s.queue owner then
    .ok { s with queue := update s.queue owner ((s.queue owner).erase q) }
  else .error .waitQueueDel

/-- Other flags for a sender. -/
def Pc.setFlags (flags : WakeupFlags) : Pc → Pc
  | .sending target _ num => .sending target flags num
  | pc => pc

/-- `wakeup_wait`, with `del` -/
def wakeupWait (s : State) (owner q : ℕ) (flags : WakeupFlags) : Except Panic State := do
  let s ← waitQueueDel s owner q
  wakeupProc { s with pc := update s.pc q ((s.pc q).setFlags flags) } q

/-- `wakeup_queue`, with `del`, for a queue of at most `n` -/
def wakeupQueue (owner : ℕ) (flags : WakeupFlags) : ℕ → State → Except Panic State
  | 0, s => .ok s
  | n + 1, s =>
    match s.queue owner with
    | [] => .ok s
    | q :: _ => do
        let s ← wakeupWait s owner q flags
        wakeupQueue owner flags n s

/-- The number of the call that a process is in. -/
def Pc.num : Pc → ℕ
  | .sending _ _ num => num
  | _ => 0

/-- A call begins. -/
def State.called (s : State) (p target : ℕ) (event : ℤ) : State :=
  { s with calls := s.calls ++ [⟨p, target, event⟩] }

/-- A call returns. -/
def State.returned (s : State) (num : ℕ) (ret : ℤ) : State :=
  { s with results := update s.results num (some ret) }

/-- A receiver that waits is woken. -/
def wakeReceiver (s : State) (target : ℕ) : Except Panic State :=
  if s.waitState target = .eventRecv then wakeupProc s target else .ok s

/-- `wait_current_set` -/
def waitCurrentSet (s : State) (p target num : ℕ) : State :=
  { s with
    state := update s.state p .sleeping
    waitState := update s.waitState p .eventSend
    pc := update s.pc p (.sending target .interrupted num)
    queue := update s.queue target (s.queue target ++ [p]) }

/-- `ipc_event_send` up to `schedule`. `special` are `initproc`, `kswapd` and the idle process. -/
def ipcEventSend (special : ℕ → Bool) (s : State) (p target : ℕ) (event : ℤ) : Except Panic State :=
  let num := s.calls.length
  if s.state target = .zombie then .ok ((s.called p target event).returned num (-eInval))
  else if target = p ∨ special target then .ok ((s.called p target event).returned num (-eInval))
  else do
    let s ← wakeReceiver (s.called p target event) target
    return waitCurrentSet { s with event := update s.event p event } p target num

/-- `wait_current_del` -/
def waitCurrentDel (s : State) (target p : ℕ) : Except Panic State :=
  if p ∈ s.queue target then waitQueueDel s target p else .ok s

/-- What `ipc_event_send` returns; `late` says whether the time is over. Flags other than
`WT_EVENT_SEND` are `WT_INTERRUPTED`, so the assertion about them is in the type. -/
def WakeupFlags.ret (late : Bool) : WakeupFlags → ℤ
  | .eventSend => 0
  | .interrupted => if late then -eTimeout else -1

/-- `send_event` from `schedule` on, and the rest of `ipc_event_send` -/
def sendEnd (s : State) (p target : ℕ) (flags : WakeupFlags) (num : ℕ) (late : Bool) : Except Panic State := do
  let s ← waitCurrentDel s target p
  return { s.returned num (flags.ret late) with pc := update s.pc p .out }

/-- The end of `recv_event`: the first of the queue is taken. -/
def take (s : State) (p : ℕ) : Except Panic State :=
  match s.queue p with
  | [] => .ok s
  | q :: _ => wakeupWait { s with taken := s.taken ++ [⟨(s.pc q).num, p, q, s.event q⟩] } p q .eventSend

/-- `recv_event` up to `schedule` -/
def recvEvent (s : State) (p : ℕ) : Except Panic State :=
  if s.queue p = [] then
    .ok { s with
      state := update s.state p .sleeping
      waitState := update s.waitState p .eventRecv
      pc := update s.pc p .receiving }
  else take s p

/-- The part of `__do_exit` about events. -/
def doExit (s : State) (p : ℕ) : Except Panic State :=
  let s := { s with state := update s.state p .zombie }
  wakeupQueue p .interrupted (s.queue p).length s

/-! ### Steps -/

/-- What can happen: a process makes a call, a timer or a kill wakes a process, a process that was woken
goes on, a process exits, and a new one gets its number. -/
inductive Event where
  | send (p target : ℕ) (event : ℤ)
  | recv (p : ℕ)
  | wake (p : ℕ)
  | resume (p : ℕ) (late : Bool)
  | exit (p : ℕ)
  | fork (p : ℕ)
deriving DecidableEq

/-- One section. A process that is not running does nothing. -/
def step (special : ℕ → Bool) (s : State) : Event → Except Panic State
  | .send p target event =>
    if s.state p = .runnable ∧ s.pc p = .out then ipcEventSend special s p target event else .ok s
  | .recv p => if s.state p = .runnable ∧ s.pc p = .out then recvEvent s p else .ok s
  | .wake p => if s.state p = .sleeping then wakeupProc s p else .ok s
  | .resume p late =>
    if s.state p = .runnable then
      match s.pc p with
      | .out => .ok s
      | .sending target flags num => sendEnd s p target flags num late
      | .receiving => take { s with pc := update s.pc p .out } p
    else .ok s
  | .exit p => if s.state p = .runnable ∧ s.pc p = .out then doExit s p else .ok s
  | .fork p =>
    if s.state p = .zombie then
      .ok { s with
        state := update s.state p .runnable
        waitState := update s.waitState p .none
        queue := update s.queue p [] }
    else .ok s

/-- Before the first process. -/
def init : State :=
  ⟨fun _ => .zombie, fun _ => .none, fun _ => 0, fun _ => [], fun _ => .out, [], fun _ => none, []⟩

/-! ### The property -/

/-- What was taken of a call. -/
def State.takenOf (s : State) (num : ℕ) : List Taken := s.taken.filter fun x => x.num = num

/-- What has to be taken of a call that succeeds. -/
def Call.delivery (c : Call) (num : ℕ) : Taken := ⟨num, c.target, c.sender, c.event⟩

/-- A call that has returned 0 was taken exactly once, by its target and with its value; one that has
returned anything else was not taken; and no call is taken twice, or as another one. -/
structure Delivered (s : State) : Prop where
  returned : ∀ num ret, s.results num = some ret → ∃ c, s.calls[num]? = some c ∧
    (ret = 0 ∧ s.takenOf num = [c.delivery num] ∨ ret ≠ 0 ∧ s.takenOf num = [])
  taken : ∀ num, s.takenOf num ≠ [] → ∃ c, s.calls[num]? = some c ∧ s.takenOf num = [c.delivery num]

/-! ### The invariant -/

/-- What was taken of a call that is not finished, by the flags of the sender. -/
def WakeupFlags.taken (flags : WakeupFlags) (c : Call) (num : ℕ) : List Taken :=
  match flags with
  | .interrupted => []
  | .eventSend => [c.delivery num]

/-- The invariant. -/
structure Inv (s : State) : Prop where
  pending : ∀ p target flags num, s.pc p = .sending target flags num →
    s.calls[num]? = some ⟨p, target, s.event p⟩ ∧ s.results num = none ∧
      s.takenOf num = flags.taken ⟨p, target, s.event p⟩ num
  returned : ∀ num ret, s.results num = some ret → ∃ c, s.calls[num]? = some c ∧
    (ret = 0 ∧ s.takenOf num = [c.delivery num] ∨ ret ≠ 0 ∧ s.takenOf num = [])
  known : ∀ num, s.takenOf num ≠ [] →
    (∃ p target flags, s.pc p = .sending target flags num) ∨ (s.results num).isSome
  queued : ∀ p target, p ∈ s.queue target → ∃ num, s.pc p = .sending target .interrupted num
  nodup : ∀ p, (s.queue p).Nodup
  zombie : ∀ p, s.state p = .zombie → s.pc p = .out ∧ s.queue p = []

variable {s s' : State} {p q target num : ℕ}

lemma Inv.delivered (hs : Inv s) : Delivered s where
  returned := hs.returned
  taken := fun num hne => by
    obtain ⟨p, target, flags, hpc⟩ | hret := hs.known num hne
    · obtain ⟨hcall, -, htaken⟩ := hs.pending p target flags num hpc
      cases flags with
      | interrupted => exact absurd htaken hne
      | eventSend => exact ⟨_, hcall, htaken⟩
    · obtain ⟨ret, hret⟩ := Option.isSome_iff_exists.mp hret
      obtain ⟨c, hcall, ⟨-, htaken⟩ | ⟨-, htaken⟩⟩ := hs.returned num ret hret
      · exact ⟨c, hcall, htaken⟩
      · exact absurd htaken hne

lemma inv_init : Inv init where
  pending := nofun
  returned := nofun
  known := fun _ hne => absurd rfl hne
  queued := nofun
  nodup := fun _ => nodup_nil
  zombie := fun _ _ => ⟨rfl, rfl⟩

/-! ### Waking -/

/-- Only which processes sleep is different. -/
structure Awake (s s' : State) : Prop where
  eq : s' = { s with state := s'.state, waitState := s'.waitState }
  zombie : ∀ x, s'.state x = .zombie ↔ s.state x = .zombie

lemma Awake.refl (s : State) : Awake s s := ⟨rfl, fun _ => Iff.rfl⟩

lemma Awake.trans {s'' : State} (h : Awake s s') (h' : Awake s' s'') : Awake s s'' := by
  refine ⟨?_, fun x => (h'.zombie x).trans (h.zombie x)⟩
  rw [h'.eq, h.eq]

lemma Awake.setQueue (h : Awake s s') (p : ℕ) (l : List ℕ) :
    Awake { s with queue := update s.queue p l } { s' with queue := update s'.queue p l } := by
  refine ⟨?_, h.zombie⟩
  rw [h.eq]

/-- Setting the state of a process that is not a zombie. -/
lemma awake_set (hp : s.state p ≠ .zombie) {st : ProcState} (hst : st ≠ .zombie) (w : WaitState) :
    Awake s { s with state := update s.state p st, waitState := update s.waitState p w } := by
  refine ⟨rfl, fun x => ?_⟩
  obtain rfl | hx := eq_or_ne x p
  · simp [hst, hp]
  · simp [update_of_ne hx]

/-- `wakeup_proc` does not fail for a process that is not a zombie. -/
lemma wakeupProc_spec (hp : s.state p ≠ .zombie) : ∃ s', wakeupProc s p = .ok s' ∧ Awake s s' := by
  rw [wakeupProc]
  cases hst : s.state p with
  | zombie => exact absurd hst hp
  | runnable => exact ⟨s, rfl, Awake.refl s⟩
  | sleeping => exact ⟨_, rfl, awake_set hp (by decide) .none⟩

lemma Inv.awake (hs : Inv s) (h : Awake s s') : Inv s' := by
  have hz := h.zombie
  rw [h.eq]
  exact ⟨hs.pending, hs.returned, hs.known, hs.queued, hs.nodup, fun x hx => hs.zombie x ((hz x).mp hx)⟩

/-- A process that is in a call is not a zombie. -/
lemma Inv.not_zombie (hs : Inv s) (hp : s.pc p ≠ .out) : s.state p ≠ .zombie := fun h =>
  hp (hs.zombie p h).1

/-! ### Calls -/

lemma results_returned_self (s : State) (num : ℕ) (ret : ℤ) : (s.returned num ret).results num = some ret :=
  update_self ..

lemma results_returned_of_ne (s : State) {n : ℕ} (h : n ≠ num) (ret : ℤ) :
    (s.returned num ret).results n = s.results n :=
  update_of_ne h ..

lemma Inv.takenOf_next (hs : Inv s) : s.takenOf s.calls.length = [] := by
  by_contra hne
  have hlast : s.calls[s.calls.length]? = none := getElem?_eq_none le_rfl
  obtain ⟨p, target, flags, hpc⟩ | hret := hs.known _ hne
  · have hcall := (hs.pending p target flags _ hpc).1
    rw [hlast] at hcall
    cases hcall
  · obtain ⟨ret, hret⟩ := Option.isSome_iff_exists.mp hret
    obtain ⟨c, hcall, -⟩ := hs.returned _ ret hret
    rw [hlast] at hcall
    cases hcall

/-- A call stays where it is when another one is made. -/
lemma getElem?_called {c c' : Call} (h : s.calls[num]? = some c) : (s.calls ++ [c'])[num]? = some c := by
  grind

/-- Two processes are in different calls. -/
lemma Inv.sender_unique (hs : Inv s) {t t' : ℕ} {f f' : WakeupFlags} (hp : s.pc p = .sending t f num)
    (hq : s.pc q = .sending t' f' num) : p = q := by
  have h := (hs.pending p t f num hp).1.symm.trans (hs.pending q t' f' num hq).1
  grind

/-- A call that is refused. -/
lemma Inv.refused (hs : Inv s) (p target : ℕ) (event : ℤ) :
    Inv ((s.called p target event).returned s.calls.length (-eInval)) where
  pending := fun q t f num hpc => by
    obtain ⟨hcall, hret, htaken⟩ := hs.pending q t f num hpc
    obtain ⟨hlt, -⟩ := List.getElem?_eq_some_iff.mp hcall
    refine ⟨getElem?_called hcall, ?_, htaken⟩
    rw [results_returned_of_ne _ hlt.ne]
    exact hret
  returned := fun num ret hret => by
    obtain rfl | hnum := eq_or_ne num s.calls.length
    · rw [results_returned_self, Option.some.injEq] at hret
      refine ⟨⟨p, target, event⟩, by simp [State.returned, State.called], .inr ⟨?_, hs.takenOf_next⟩⟩
      rw [← hret]
      decide
    · rw [results_returned_of_ne _ hnum] at hret
      obtain ⟨c, hcall, hc⟩ := hs.returned num ret hret
      exact ⟨c, getElem?_called hcall, hc⟩
  known := fun num hne => by
    obtain hpc | hret := hs.known num hne
    · exact .inl hpc
    · refine .inr ?_
      by_cases hnum : num = s.calls.length
      · simp [State.returned, hnum]
      · rw [results_returned_of_ne _ hnum]
        exact hret
  __ := hs

/-- A call that another process has under way stays known. -/
lemma Inv.known_update (hs : Inv s) (hne : s.takenOf num ≠ []) (hp : ∀ t f, s.pc p ≠ .sending t f num) (pc : Pc) :
    (∃ q t f, update s.pc p pc q = .sending t f num) ∨ (s.results num).isSome :=
  (hs.known num hne).imp_left fun ⟨q, t, f, hpc⟩ => by
    have hq : q ≠ p := fun h => hp t f (h ▸ hpc)
    exact ⟨q, t, f, by rw [update_of_ne hq, hpc]⟩

/-- A sender that puts itself into the queue. -/
lemma Inv.enqueue (hs : Inv s) (hp : s.pc p = .out) (hp' : s.state p ≠ .zombie)
    (htarget : s.state target ≠ .zombie) (event : ℤ) : Inv { s.called p target event with
      event := update s.event p event
      pc := update s.pc p (.sending target .interrupted s.calls.length)
      queue := update s.queue target (s.queue target ++ [p]) } where
  pending := fun q t f num hpc => by
    obtain rfl | hq := eq_or_ne q p
    · simp only [update_self, Pc.sending.injEq] at hpc
      obtain ⟨rfl, rfl, rfl⟩ := hpc
      refine ⟨by simp [State.called], ?_, hs.takenOf_next⟩
      -- no result, because there was no such call
      by_contra hret
      obtain ⟨ret, hret⟩ := Option.ne_none_iff_exists'.mp hret
      obtain ⟨c, hcall, -⟩ := hs.returned _ ret hret
      grind
    · simp only [update_of_ne hq] at hpc ⊢
      obtain ⟨hcall, hret, htaken⟩ := hs.pending q t f num hpc
      exact ⟨getElem?_called hcall, hret, htaken⟩
  returned := fun num ret hret => by
    obtain ⟨c, hcall, hc⟩ := hs.returned num ret hret
    exact ⟨c, getElem?_called hcall, hc⟩
  known := fun num hne => hs.known_update hne (by simp [hp]) _
  queued := fun q t hq => by
    have hold : q ∈ s.queue t → q ≠ p ∧ ∃ num, s.pc q = .sending t .interrupted num := fun hmem => by
      obtain ⟨num, hpc⟩ := hs.queued q t hmem
      grind
    have hcases : q ∈ s.queue t ∨ t = target ∧ q = p := by
      obtain rfl | ht := eq_or_ne t target
      · simpa using hq
      · grind
    obtain hmem | ⟨rfl, rfl⟩ := hcases
    · grind
    · exact ⟨s.calls.length, update_self ..⟩
  nodup := fun t => by
    obtain rfl | ht := eq_or_ne t target
    · have hnot : p ∉ s.queue t := fun hmem => by
        obtain ⟨num, hpc⟩ := hs.queued p t hmem
        rw [hp] at hpc
        cases hpc
      simpa [nodup_append, hs.nodup t] using fun a ha => ne_of_mem_of_not_mem ha hnot
    · simpa [update_of_ne ht] using hs.nodup t
  zombie := fun x hx => by
    have hxp : x ≠ p := fun h => hp' (h ▸ hx)
    have hxt : x ≠ target := fun h => htarget (h ▸ hx)
    simp only [update_of_ne hxp, update_of_ne hxt]
    exact hs.zombie x hx

variable {flags : WakeupFlags} {l : List ℕ}

/-- A queue that gets shorter. -/
lemma update_sublist (hsub : l.Sublist (s.queue p)) (t : ℕ) : (update s.queue p l t).Sublist (s.queue t) := by
  obtain rfl | ht := eq_or_ne t p
  · simpa using hsub
  · simp [update_of_ne ht]

/-- A sender that returns. -/
lemma Inv.finish (hs : Inv s) (hp : s.pc p = .sending target flags num) {ret : ℤ}
    (hret : ret = 0 ↔ flags = .eventSend) (hsub : l.Sublist (s.queue target)) (hnot : p ∉ l) :
    Inv { s.returned num ret with
      pc := update s.pc p .out
      queue := update s.queue target l } where
  pending := fun q t f num' hpc => by
    have hq : q ≠ p := fun h => by
      simp only [h, update_self] at hpc
      cases hpc
    simp only [update_of_ne hq] at hpc
    obtain ⟨hcall, hres, htaken⟩ := hs.pending q t f num' hpc
    have hnum : num' ≠ num := fun h => hq (hs.sender_unique hpc (h ▸ hp))
    exact ⟨hcall, by simpa [State.returned, update_of_ne hnum] using hres, htaken⟩
  returned := fun num' ret' hres => by
    obtain rfl | hnum := eq_or_ne num' num
    · obtain ⟨hcall, -, htaken⟩ := hs.pending p target flags num' hp
      obtain rfl : ret = ret' := by simpa [State.returned] using hres
      refine ⟨_, hcall, ?_⟩
      cases flags with
      | eventSend => exact .inl ⟨hret.mpr rfl, htaken⟩
      | interrupted => exact .inr ⟨fun h => (nomatch hret.mp h), htaken⟩
    · simp only [State.returned, update_of_ne hnum] at hres
      exact hs.returned num' ret' hres
  known := fun num' hne => by
    by_cases hnum : num' = num
    · exact .inr (by simp [State.returned, hnum])
    · refine (hs.known_update hne (by simp [hp, Ne.symm hnum]) _).imp_right fun hres => ?_
      simpa [State.returned, update_of_ne hnum] using hres
  queued := fun q t hq => by
    obtain ⟨num', hpc⟩ := hs.queued q t ((update_sublist hsub t).subset hq)
    grind
  nodup := fun t => (update_sublist hsub t).nodup (hs.nodup t)
  zombie := fun x hx => by
    obtain ⟨hpc, hqueue⟩ := hs.zombie x hx
    constructor
    · by_cases hxp : x = p
      · simp [hxp]
      · simpa [update_of_ne hxp] using hpc
    · grind

/-- A sender that is taken, from the queue of `p`. -/
lemma Inv.took (hs : Inv s) (hq : s.pc q = .sending p .interrupted num)
    (hsub : l.Sublist (s.queue p)) (hnot : q ∉ l) : Inv { s with
      taken := s.taken ++ [⟨num, p, q, s.event q⟩]
      queue := update s.queue p l
      pc := update s.pc q (.sending p .eventSend num) } where
  pending := fun x t f n hpc => by
    obtain rfl | hx := eq_or_ne x q
    · simp only [update_self, Pc.sending.injEq] at hpc
      obtain ⟨rfl, rfl, rfl⟩ := hpc
      obtain ⟨hcall, hret, htaken⟩ := hs.pending x p _ num hq
      grind [State.takenOf, WakeupFlags.taken, Call.delivery]
    · simp only [update_of_ne hx] at hpc
      obtain ⟨hcall, hret, htaken⟩ := hs.pending x t f n hpc
      have hn : num ≠ n := fun h => hx (hs.sender_unique hpc (h ▸ hq))
      grind [State.takenOf]
  returned := fun n ret hret => by
    have hn : num ≠ n := fun h => by
      have hnone := (hs.pending q p _ num hq).2.1
      rw [h, hret] at hnone
      cases hnone
    obtain ⟨c, hcall, hc⟩ := hs.returned n ret hret
    grind [State.takenOf]
  known := fun n hne => by
    by_cases hn : n = num
    · exact .inl ⟨q, p, .eventSend, by simp [hn]⟩
    · have hne' : s.takenOf n ≠ [] := by
        simpa [State.takenOf, Ne.symm hn] using hne
      exact hs.known_update hne' (by simp [hq, Ne.symm hn]) _
  queued := fun x t hx => by
    obtain ⟨n, hpc⟩ := hs.queued x t ((update_sublist hsub t).subset hx)
    grind
  nodup := fun t => (update_sublist hsub t).nodup (hs.nodup t)
  zombie := fun x hx => by
    obtain ⟨hpc, hqueue⟩ := hs.zombie x hx
    constructor
    · grind
    · grind

/-- The end of `recv_event` takes the first of the queue. -/
lemma take_spec (hs : Inv s) (p : ℕ) : Yields (take s p) Inv := by
  rw [take]
  cases hqueue : s.queue p with
  | nil => exact ⟨s, rfl, hs⟩
  | cons q rest =>
    have hmem : q ∈ s.queue p := by
      rw [hqueue]
      exact (.head _)
    obtain ⟨num, hq⟩ := hs.queued q p hmem
    have hnodup := hs.nodup p
    have hinv := hs.took hq erase_sublist (hnodup.not_mem_erase)
    obtain ⟨s', hwake, hawake⟩ := wakeupProc_spec (p := q) (hinv.not_zombie (by simp))
    refine ⟨s', ?_, hinv.awake hawake⟩
    rw [← hwake]
    dsimp only
    rw [wakeupWait, waitQueueDel, if_pos hmem, ok_bind]
    rw [hq]
    rfl

/-- The queue of a process that exits is emptied, and its senders are woken as they are. -/
lemma wakeupQueue_spec (n : ℕ) (hn : (s.queue p).length ≤ n)
    (hq : ∀ q ∈ s.queue p, s.state q ≠ .zombie ∧ ∃ t num, s.pc q = .sending t .interrupted num) :
    ∃ s', wakeupQueue p .interrupted n s = .ok s' ∧
      Awake { s with queue := update s.queue p [] } s' := by
  induction n generalizing s with
  | zero =>
    have hnil : s.queue p = [] := length_eq_zero_iff.mp (by omega)
    refine ⟨s, rfl, ?_⟩
    rw [← hnil, update_eq_self]
    exact Awake.refl s
  | succ n ih =>
    rw [wakeupQueue]
    cases hqueue : s.queue p with
    | nil =>
      refine ⟨s, rfl, ?_⟩
      rw [← hqueue, update_eq_self]
      exact Awake.refl s
    | cons q rest =>
      have hmem : q ∈ s.queue p := by
        rw [hqueue]
        exact (.head _)
      obtain ⟨hz, t, num, hpc⟩ := hq q hmem
      obtain ⟨s1, hwake, hawake⟩ := wakeupProc_spec (s := { s with queue := update s.queue p rest }) hz
      have hwait : wakeupWait s p q .interrupted = .ok s1 := by
        have hpc' : (s.pc q).setFlags .interrupted = s.pc q := by
          rw [hpc]
          rfl
        grind [wakeupWait, waitQueueDel, ok_bind, update_eq_self]
      have hqueue1 : s1.queue p = rest := by
        rw [hawake.eq]
        exact update_self ..
      obtain ⟨s', hrest, hawake'⟩ := ih
        (by rw [hqueue1]; rw [hqueue, length_cons] at hn; omega) (fun x hx => by
          rw [hqueue1] at hx
          obtain ⟨hxz, hxpc⟩ := hq x (by rw [hqueue]; exact .tail _ hx)
          refine ⟨fun h => hxz ((hawake.zombie x).mp h), ?_⟩
          rw [hawake.eq]
          exact hxpc)
      refine ⟨s', by simp only [hwait, ok_bind, hrest], ?_⟩
      have hall := (hawake.setQueue p []).trans hawake'
      rwa [update_idem] at hall

/-- A process that exits with an empty queue. -/
lemma Inv.exited (hs : Inv s) (hp : s.pc p = .out) : Inv { s with
      state := update s.state p .zombie
      queue := update s.queue p [] } where
  __ := hs
  queued := fun x t hx => by
    obtain rfl | ht := eq_or_ne t p
    · simp at hx
    · exact hs.queued x t (by simpa [update_of_ne ht] using hx)
  nodup := fun t => by
    by_cases ht : t = p
    · simp [ht]
    · simpa [update_of_ne ht] using hs.nodup t
  zombie := fun x hx => by
    by_cases hxp : x = p
    · simp [hxp, hp]
    · simp only [update_of_ne hxp] at hx ⊢
      exact hs.zombie x hx

lemma doExit_spec (hs : Inv s) (hp : s.pc p = .out) : Yields (doExit s p) Inv := by
  obtain ⟨s', hexit, hawake⟩ := wakeupQueue_spec
    (s := { s with state := update s.state p .zombie }) (s.queue p).length le_rfl
    (fun q hq => by
      obtain ⟨num, hpc⟩ := hs.queued q p hq
      have hqp : q ≠ p := fun h => by
        rw [h, hp] at hpc
        cases hpc
      refine ⟨?_, p, num, hpc⟩
      simp only [update_of_ne hqp]
      exact hs.not_zombie (by simp [hpc]))
  exact ⟨s', hexit, (hs.exited hp).awake hawake⟩

lemma sendEnd_spec (hs : Inv s) (hp : s.pc p = .sending target flags num)
    (late : Bool) : Yields (sendEnd s p target flags num late) Inv := by
  have hret : flags.ret late = 0 ↔ flags = .eventSend := by
    cases flags with
    | eventSend => exact iff_of_true rfl rfl
    | interrupted => cases late <;> decide
  rw [sendEnd, waitCurrentDel]
  split_ifs with hmem
  · rw [waitQueueDel, if_pos hmem, ok_bind]
    exact ⟨_, rfl, hs.finish hp hret erase_sublist (hs.nodup target).not_mem_erase⟩
  · refine ⟨_, rfl, ?_⟩
    have hinv := hs.finish hp hret (List.Sublist.refl _) hmem
    rwa [update_eq_self] at hinv

lemma wakeReceiver_spec (htarget : s.state target ≠ .zombie) :
    ∃ s', wakeReceiver s target = .ok s' ∧ Awake s s' := by
  rw [wakeReceiver]
  split_ifs
  · exact wakeupProc_spec htarget
  · exact ⟨s, rfl, Awake.refl s⟩

lemma ipcEventSend_spec (special : ℕ → Bool) (hs : Inv s) (hp : s.pc p = .out)
    (hp' : s.state p ≠ .zombie) (target : ℕ) (event : ℤ) :
    Yields (ipcEventSend special s p target event) Inv := by
  rw [ipcEventSend]
  split_ifs with hz href
  any_goals exact ⟨_, rfl, hs.refused p target event⟩
  obtain ⟨s1, hwake, hawake⟩ := wakeReceiver_spec (s := s.called p target event) hz
  rw [hwake]
  refine ⟨_, rfl, ?_⟩
  refine (hs.enqueue hp hp' hz event).awake ⟨?_, fun x => ?_⟩
  · rw [waitCurrentSet, hawake.eq]
    rfl
  · obtain rfl | hx := eq_or_ne x p
    · simp [waitCurrentSet, State.called, hp']
    · simpa [waitCurrentSet, update_of_ne hx] using hawake.zombie x

/-- A process that goes to another place without having a call under way. -/
lemma Inv.setPc (hs : Inv s) {pc : Pc} (hold : ∀ t f n, s.pc p ≠ .sending t f n)
    (hnew : ∀ t f n, pc ≠ .sending t f n) (hp : s.state p = .zombie → pc = .out) :
    Inv { s with pc := update s.pc p pc } where
  pending := fun q t f n hpc => by
    have hq : q ≠ p := fun h => by grind
    simp only [update_of_ne hq] at hpc
    exact hs.pending q t f n hpc
  returned := hs.returned
  known := fun n hne => hs.known_update hne (fun t f => hold t f n) _
  queued := fun q t hmem => by
    obtain ⟨n, hpc⟩ := hs.queued q t hmem
    grind
  nodup := hs.nodup
  zombie := fun x hx => by
    refine ⟨?_, (hs.zombie x hx).2⟩
    obtain rfl | hxp := eq_or_ne x p
    · simpa using hp hx
    · simpa [update_of_ne hxp] using (hs.zombie x hx).1

lemma recvEvent_spec (hs : Inv s) (hp : s.pc p = .out) (hp' : s.state p ≠ .zombie) :
    Yields (recvEvent s p) Inv := by
  rw [recvEvent]
  split_ifs with hqueue
  · have hinv : Inv { s with pc := update s.pc p .receiving } :=
      hs.setPc (by simp [hp]) (by simp) fun h => absurd h hp'
    have hsleep : ProcState.sleeping ≠ .zombie := by decide
    exact ⟨_, rfl, hinv.awake (awake_set (s := { s with pc := update s.pc p .receiving }) hp' hsleep .eventRecv)⟩
  · exact take_spec hs p

/-- A new process in the place of one that is gone. -/
lemma Inv.forked (hs : Inv s) (hp : s.state p = .zombie) : Inv { s with
      state := update s.state p .runnable
      waitState := update s.waitState p .none
      queue := update s.queue p [] } := by
  rw [← (hs.zombie p hp).2, update_eq_self]
  refine ⟨hs.pending, hs.returned, hs.known, hs.queued, hs.nodup, fun x hx => hs.zombie x ?_⟩
  by_cases hxp : x = p
  · rw [hxp, hp]
  · simpa [update_of_ne hxp] using hx

/-- A step does not fail, and keeps the invariant. -/
lemma step_spec (special : ℕ → Bool) (s : State) (e : Event) (hs : Inv s) : Yields (step special s e) Inv := by
  cases e with
  | send p target event =>
    rw [step]
    split_ifs with hp
    · exact ipcEventSend_spec special hs hp.2 (by rw [hp.1]; decide) target event
    · exact ⟨s, rfl, hs⟩
  | recv p =>
    rw [step]
    split_ifs with hp
    · exact recvEvent_spec hs hp.2 (by rw [hp.1]; decide)
    · exact ⟨s, rfl, hs⟩
  | wake p =>
    rw [step]
    split_ifs with hp
    · obtain ⟨s', hwake, hawake⟩ := wakeupProc_spec (by rw [hp]; decide)
      exact ⟨s', hwake, hs.awake hawake⟩
    · exact ⟨s, rfl, hs⟩
  | resume p late =>
    rw [step]
    split_ifs with hp
    · cases hpc : s.pc p with
      | out => exact ⟨s, rfl, hs⟩
      | sending target flags num => exact sendEnd_spec hs hpc late
      | receiving =>
        exact take_spec (hs.setPc (by simp [hpc]) (by simp) fun _ => rfl) p
    · exact ⟨s, rfl, hs⟩
  | exit p =>
    rw [step]
    split_ifs with hp
    · exact doExit_spec hs hp.2
    · exact ⟨s, rfl, hs⟩
  | fork p =>
    rw [step]
    split_ifs with hp
    · exact ⟨_, rfl, hs.forked hp⟩
    · exact ⟨s, rfl, hs⟩

/-- In every run of any number of processes that send, receive, are woken by timers and kills at any time,
and exit: no assertion fails, every call that has returned 0 was taken by one `recv_event` of its target
with the value of the call, and every other call that has returned was not taken. -/
theorem event_delivery (special : ℕ → Bool) (es : List Event) :
    ∃ s, es.foldlM (step special) init = .ok s ∧ Delivered s := by
  obtain ⟨s, hrun, hs⟩ := Guarded.exists_foldlM (step_spec special) inv_init es
  exact ⟨s, hrun, hs.delivered⟩

end UcoreKernel.EventBox
