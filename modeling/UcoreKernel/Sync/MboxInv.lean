import UcoreKernel.Sync.MboxCore
import UcoreKernel.Lib.Tally

/-!
The invariant of the mailboxes, and that the functions of the source are moves of messages.

`inuse` counts the processes that sleep in one of the two queues of a mailbox, and the process that
is between `enter` and `leave` (`busy`). From this no assertion of the source fails: a mailbox goes
back to the free list when nobody sleeps in it.
-/

namespace UcoreKernel.Mbox

open Tally Function List State

/-! ### The messages of a state -/

/-- The message that a process has. -/
def Pc.held : Pc → Option Hold
  | .sendWait mbox msg _ => some (.waiting mbox msg)
  | .recvCopy _ msg inst => some (.taken msg inst)
  | _ => none

/-- The queue in which a process sleeps. -/
def Pc.waitsAt : Pc → Option (ℕ × Side)
  | .sendWait mbox _ _ => some (mbox, .senders)
  | .recvWait _ mbox _ _ => some (mbox, .receivers)
  | _ => none

/-- The mailbox in whose queues a process sleeps. -/
def Pc.uses (pc : Pc) : Option ℕ := pc.waitsAt.map Prod.fst

/-- A mailbox without its queues. -/
def MsgMbox.box (m : MsgMbox) : Box := ⟨m.state, m.maxSlots, m.slots, m.msgs, m.inst⟩

/-- The messages of a state. -/
def State.core (s : State) : Core :=
  ⟨fun i => (s.mboxes i).box, fun p => (s.procs p).held, s.sent, s.inits, s.received⟩

variable {s s' : State} {p i : ℕ} {side : Side} {pc : Pc} {flags : WakeupFlags} {b : Option ℕ}

@[simp] lemma core_setPc : (s.setPc p pc).core = s.core.setHeld p pc.held := by
  simp only [core, State.setPc, Core.setHeld]
  congr 1
  grind

variable {m : MsgMbox}

@[simp] lemma core_setMbox : (s.setMbox i m).core = s.core.setBox i m.box := by
  simp only [core, State.setMbox, Core.setBox]
  congr 1
  grind

variable {c : Core}

lemma setHeld_self {h : Option Hold} (hp : c.held p = h) : c.setHeld p h = c := by
  subst hp
  simp [Core.setHeld]

lemma setBox_self {x : Box} (hx : c.boxes i = x) : c.setBox i x = c := by
  subst hx
  simp [Core.setBox]

lemma setHeld_setHeld {h h' : Option Hold} : (c.setHeld p h).setHeld p h' = c.setHeld p h' := by
  simp [Core.setHeld]

@[simp] lemma core_boxes : s.core.boxes i = (s.mboxes i).box := rfl

@[simp] lemma core_held : s.core.held p = (s.procs p).held := rfl

/-! ### Wakeups -/

@[simp] lemma Pc.held_wake : (pc.wake flags).held = pc.held := by cases pc <;> rfl

@[simp] lemma Pc.waitsAt_wake : (pc.wake flags).waitsAt = pc.waitsAt := by cases pc <;> rfl

@[simp] lemma Pc.wake_wake {flags' : WakeupFlags} : (pc.wake flags).wake flags' = pc.wake flags' := by
  cases pc <;> rfl

lemma Pc.wake_of_waitsAt_eq_none (h : pc.waitsAt = none) : pc.wake flags = pc := by
  cases pc <;> first | rfl | cases h

/-- Nothing has changed but the flags of processes that sleep, and queues that have lost some. -/
structure Woken (s s' : State) : Prop where
  mbox : ∀ i, s'.mboxes i = { s.mboxes i with queue := (s'.mboxes i).queue }
  queue : ∀ i side, ((s'.mboxes i).queue side).Sublist ((s.mboxes i).queue side)
  proc : ∀ p flags, (s'.procs p).wake flags = (s.procs p).wake flags
  rest : s' = { s with mboxes := s'.mboxes, procs := s'.procs }

namespace Woken

lemma refl (s : State) : Woken s s :=
  ⟨fun _ => rfl, fun _ _ => List.Sublist.refl _, fun _ _ => rfl, rfl⟩

variable (h : Woken s s')
include h

lemma trans {s'' : State} (h' : Woken s' s'') : Woken s s'' where
  mbox := fun i => by rw [h'.mbox i, h.mbox i]
  queue := fun i side => (h'.queue i side).trans (h.queue i side)
  proc := fun p flags => (h'.proc p flags).trans (h.proc p flags)
  rest := by rw [h'.rest, h.rest]

lemma waitsAt_eq (p : ℕ) : (s'.procs p).waitsAt = (s.procs p).waitsAt := by
  simpa using congrArg Pc.waitsAt (h.proc p .mbox)

lemma held_eq (p : ℕ) : (s'.procs p).held = (s.procs p).held := by
  simpa using congrArg Pc.held (h.proc p .mbox)

/-- A process that does not sleep is where it was. -/
lemma proc_eq (hp : (s.procs p).waitsAt = none) : s'.procs p = s.procs p := by
  have hwake := h.proc p .mbox
  rwa [Pc.wake_of_waitsAt_eq_none hp, Pc.wake_of_waitsAt_eq_none (by rw [h.waitsAt_eq, hp])] at hwake

/-- No message has moved. -/
lemma core_eq : s'.core = s.core := by
  have hrest := h.rest
  rw [core, core]
  congr 1
  · funext i
    rw [h.mbox i]
    rfl
  · funext p
    exact h.held_eq p
  all_goals rw [hrest]

end Woken

lemma wakeupFirst_woken (s : State) (i : ℕ) (side : Side) (flags : WakeupFlags) :
    Woken s (wakeupFirst s i side flags) := by
  rw [wakeupFirst]
  split
  case h_1 => exact Woken.refl s
  case h_2 p rest hq =>
    refine ⟨fun j => ?_, fun j side' => ?_, fun q flags' => ?_, rfl⟩
    · obtain rfl | hj := eq_or_ne j i
      · simp [State.setMbox, State.setPc, MsgMbox.setQueue]
      · simp [State.setMbox, State.setPc, update_of_ne hj]
    · obtain rfl | hj := eq_or_ne j i
      · by_cases hside : side' = side
        · subst hside
          simp [State.setMbox, State.setPc, MsgMbox.setQueue, hq]
        · simp [State.setMbox, State.setPc, MsgMbox.setQueue, update_of_ne hside]
      · simp [State.setMbox, State.setPc, update_of_ne hj]
    · obtain rfl | hqp := eq_or_ne q p
      · simp [State.setMbox, State.setPc]
      · simp [State.setMbox, State.setPc, update_of_ne hqp]

lemma wakeupQueue_woken (s : State) (i : ℕ) (side : Side) (flags : WakeupFlags) :
    Woken s (wakeupQueue s i side flags) := by
  rw [wakeupQueue]
  generalize (s.mboxes i).queue side = q
  induction q generalizing s with
  | nil => exact Woken.refl s
  | cons p q ih => exact (wakeupFirst_woken s i side flags).trans (ih _)

/-! ### The invariant -/

/-- What holds of a mailbox by itself. -/
structure MsgMbox.Sound (m : MsgMbox) : Prop where
  closing : m.state = .closing → m.msgs = []
  closed : m.state = .closed → m.inuse = 0 ∧ m.slots = 0 ∧ m.msgs = []

/-- The process waits for a page in `new_mbox`. -/
def Pc.Allocates (pc : Pc) (page : ℕ) : Prop := ∃ maxSlots, pc = .initAlloc maxSlots page

/-- The number of processes that sleep in the queues of a mailbox. -/
noncomputable def State.sleepers (s : State) (i : ℕ) : ℕ :=
  tally s.procs fun _ pc => pc.uses = some i

/-- The invariant, while a process is between `enter` and `leave` of the mailbox `busy`. -/
structure Inv (perPage : ℕ) (s : State) (busy : Option ℕ) : Prop where
  finite : {p | s.procs p ≠ .idle}.Finite
  inuse : ∀ i, (s.mboxes i).inuse = s.sleepers i + if busy = some i then 1 else 0
  queue : ∀ i side, ((s.mboxes i).queue side).Nodup ∧
    ∀ p ∈ (s.mboxes i).queue side, (s.procs p).waitsAt = some (i, side)
  sound : ∀ i, (s.mboxes i).Sound
  unmapped : ∀ i, s.mboxMap (i / perPage) = false → s.mboxes i = freshMbox
  free : s.freeMboxList.Nodup ∧
    ∀ i ∈ s.freeMboxList, s.mboxMap (i / perPage) = true ∧ (s.mboxes i).state = .closed
  alloc : ∀ p page, (s.procs p).Allocates page → s.mboxMap page = false ∧ s.semMboxMap = true
  alone : ∀ p q page page', (s.procs p).Allocates page → (s.procs q).Allocates page' → p = q

namespace Inv

variable {perPage : ℕ}

section

variable (hs : Inv perPage s b)
include hs

lemma finite_uses (i : ℕ) : {p | (s.procs p).uses = some i}.Finite := by
  refine hs.finite.subset fun p hp hidle => ?_
  rw [Set.mem_ofPred_eq, hidle] at hp
  cases hp

/-- A mailbox that is not closed has a page and is not in the free list. -/
lemma mapped (hi : (s.mboxes i).state ≠ .closed) : s.mboxMap (i / perPage) = true := by
  by_contra hmap
  rw [hs.unmapped i (by simpa using hmap)] at hi
  exact hi rfl

lemma notMem_free (hi : (s.mboxes i).state ≠ .closed) : i ∉ s.freeMboxList :=
  fun hmem => hi (hs.free.2 i hmem).2

/-- A mailbox that somebody uses is not closed. -/
lemma ne_closed (hi : (s.mboxes i).inuse ≠ 0) : (s.mboxes i).state ≠ .closed :=
  fun hclosed => hi ((hs.sound i).closed hclosed).1

end

lemma inuse_ne_zero_of_busy (hs : Inv perPage s (some i)) : (s.mboxes i).inuse ≠ 0 := by
  rw [hs.inuse i, if_pos rfl]
  omega

section

variable (hs : Inv perPage s b)
include hs

lemma inuse_ne_zero_of_waits (hp : (s.procs p).waitsAt = some (i, side)) : (s.mboxes i).inuse ≠ 0 := by
  intro hzero
  rw [hs.inuse i] at hzero
  have htally : s.sleepers i = 0 := by omega
  exact not_of_tally_eq_zero (hs.finite_uses i) htally p (by rw [Pc.uses, hp]; rfl)

section

variable (hi : (s.mboxes i).inuse = 0)
include hi

/-- Nobody sleeps in a mailbox that nobody uses. -/
lemma not_waits (p : ℕ) (side : Side) : (s.procs p).waitsAt ≠ some (i, side) :=
  fun hp => hs.inuse_ne_zero_of_waits hp hi

lemma queue_eq_nil (side : Side) : (s.mboxes i).queue side = [] :=
  eq_nil_iff_forall_not_mem.mpr fun p hp =>
    hs.not_waits hi p side ((hs.queue i side).2 p hp)

lemma noneWaits : s.core.NoneWaits i := by
  intro p msg hp
  refine hs.not_waits hi p .senders ?_
  replace hp : (s.procs p).held = some (.waiting i msg) := hp
  cases hpc : s.procs p <;> rw [hpc] at hp <;> cases hp
  rfl

end

/-- A wakeup. -/
lemma woken (h : Woken s s') : Inv perPage s' b := by
  have hrest := h.rest
  have hproc : ∀ p, (s'.procs p).waitsAt = none → s'.procs p = s.procs p := fun p hp =>
    h.proc_eq (by rw [← h.waitsAt_eq, hp])
  have halloc : ∀ p page, (s'.procs p).Allocates page → (s.procs p).Allocates page := by
    rintro p page ⟨maxSlots, hp⟩
    exact ⟨maxSlots, by rw [← hproc p (hp ▸ rfl), hp]⟩
  constructor
  case finite =>
    refine hs.finite.subset fun p hp hidle => hp ?_
    rw [h.proc_eq (hidle ▸ rfl), hidle]
  case inuse =>
    intro i
    rw [h.mbox i]
    refine (hs.inuse i).trans (congrArg (· + _) (tally_congr fun p => ?_))
    rw [Pc.uses, Pc.uses, h.waitsAt_eq]
  case queue =>
    intro i side
    refine ⟨(hs.queue i side).1.sublist (h.queue i side), fun p hp => ?_⟩
    rw [h.waitsAt_eq]
    exact (hs.queue i side).2 p ((h.queue i side).subset hp)
  case sound =>
    intro i
    rw [h.mbox i]
    exact ⟨(hs.sound i).closing, (hs.sound i).closed⟩
  case unmapped =>
    intro i hi
    rw [hrest] at hi
    have hfresh := hs.unmapped i hi
    have hqueue : (s'.mboxes i).queue = fun _ => [] := by
      funext side
      have hsub := h.queue i side
      rw [hfresh] at hsub
      exact sublist_nil.mp hsub
    rw [h.mbox i, hfresh, hqueue]
    rfl
  case free =>
    rw [hrest]
    refine ⟨hs.free.1, fun i hi => ⟨(hs.free.2 i hi).1, ?_⟩⟩
    show (s'.mboxes i).state = _
    rw [h.mbox i]
    exact (hs.free.2 i hi).2
  case alloc =>
    intro p page hp
    rw [hrest]
    exact hs.alloc p page (halloc p page hp)
  grind [alone]

variable {b' : Option ℕ}

/-- A process goes to another place, and the mailbox that is busy changes with the one in which it
sleeps. -/
lemma setPc (hqueue : ∀ i side, p ∈ (s.mboxes i).queue side → pc.waitsAt = some (i, side))
    (halloc : ∀ page, pc.Allocates page → s.mboxMap page = false ∧ s.semMboxMap = true ∧
      ∀ q page', q ≠ p → ¬(s.procs q).Allocates page')
    (hbusy : ∀ i, (if pc.uses = some i then 1 else 0) + (if b' = some i then 1 else 0) =
      (if (s.procs p).uses = some i then 1 else 0) + if b = some i then 1 else 0) :
    Inv perPage (s.setPc p pc) b' := by
  have hself : (s.setPc p pc).procs p = pc := update_self _ _ _
  have hother : ∀ q, q ≠ p → (s.setPc p pc).procs q = s.procs q := fun q hq =>
    update_of_ne hq _ _
  constructor
  case finite => exact finite_update (fun _ pc => pc ≠ .idle) hs.finite p pc
  case inuse =>
    intro i
    have htally := tally_update (fun _ pc => pc.uses = some i) (hs.finite_uses i) p pc
    have hinuse := hs.inuse i
    have hbusy := hbusy i
    rw [sleepers] at hinuse
    show (s.mboxes i).inuse = tally (update s.procs p pc) (fun _ pc => pc.uses = some i) + _
    omega
  case queue =>
    intro i side
    refine ⟨(hs.queue i side).1, fun q hq => ?_⟩
    by_cases hqp : q = p
    · grind [State.setPc]
    · simpa [State.setPc, update_of_ne hqp] using (hs.queue i side).2 q hq
  case sound => exact hs.sound
  case unmapped => exact hs.unmapped
  case free => exact hs.free
  case alloc =>
    intro q page hq
    obtain rfl | hqp := eq_or_ne q p
    · rw [hself] at hq
      exact ⟨(halloc page hq).1, (halloc page hq).2.1⟩
    · rw [hother q hqp] at hq
      exact hs.alloc q page hq
  grind [alone]

section

variable (hp : (s.procs p).waitsAt = none)
include hp

/-- A process that does not sleep is in no queue. -/
lemma notMem_queue (i : ℕ) (side : Side) : p ∉ (s.mboxes i).queue side := by
  intro hmem
  have hwaits := (hs.queue i side).2 p hmem
  rw [hp] at hwaits
  cases hwaits

/-- A process that does not sleep goes to another place where it does not. -/
lemma setPc_awake (hpc : pc.waitsAt = none)
    (halloc : ∀ page, ¬pc.Allocates page) : Inv perPage (s.setPc p pc) b := by
  refine hs.setPc (fun i side hmem => absurd hmem (hs.notMem_queue hp i side))
    (fun page h => absurd h (halloc page)) fun i => ?_
  simp [Pc.uses, hp, hpc]

/-- A process becomes idle. -/
lemma setPc_idle : Inv perPage (s.setPc p .idle) b :=
  hs.setPc_awake hp rfl nofun

end

/-- A mailbox with a page changes. -/
lemma setMbox (hinuse : ∀ j, (if j = i then m.inuse else (s.mboxes j).inuse) =
      s.sleepers j + if b' = some j then 1 else 0)
    (hqueue : ∀ side, (m.queue side).Nodup ∧ ∀ p ∈ m.queue side, (s.procs p).waitsAt = some (i, side))
    (hsound : m.Sound) (hmap : s.mboxMap (i / perPage) = true)
    (hfree : i ∈ s.freeMboxList → m.state = .closed) : Inv perPage (s.setMbox i m) b' := by
  have hself : (s.setMbox i m).mboxes i = m := update_self _ _ _
  have hne : ∀ j, j ≠ i → (s.setMbox i m).mboxes j = s.mboxes j := fun j hj =>
    update_of_ne hj _ _
  constructor
  case finite => exact hs.finite
  case inuse =>
    intro j
    have hj := hinuse j
    obtain rfl | hji := eq_or_ne j i
    · rw [if_pos rfl] at hj
      rwa [hself]
    · rw [if_neg hji] at hj
      rwa [hne j hji]
  case queue =>
    intro j side
    obtain rfl | hj := eq_or_ne j i
    · rw [hself]
      exact hqueue side
    · rw [hne j hj]
      exact hs.queue j side
  case sound =>
    intro j
    obtain rfl | hj := eq_or_ne j i
    · rwa [hself]
    · rw [hne j hj]
      exact hs.sound j
  case unmapped =>
    intro j hj
    have hji : j ≠ i := by grind [State.setMbox]
    rw [hne j hji]
    exact hs.unmapped j hj
  case free =>
    refine ⟨hs.free.1, fun j hj => ⟨(hs.free.2 j hj).1, ?_⟩⟩
    obtain rfl | hji := eq_or_ne j i
    · rw [hself]
      exact hfree hj
    · rw [hne j hji]
      exact (hs.free.2 j hj).2
  case alloc => exact hs.alloc
  case alone => exact hs.alone

variable (hi : (s.mboxes i).state ≠ .closed)
include hi

/-- The messages of a mailbox that is not closed change. -/
lemma setMsgs (hinuse : m.inuse = (s.mboxes i).inuse) (hqueue : m.queue = (s.mboxes i).queue)
    (hclosing : m.state = .closing → m.msgs = []) (hclosed : m.state ≠ .closed) :
    Inv perPage (s.setMbox i m) b := by
  refine hs.setMbox (fun j => ?_) (fun side => ?_) ⟨hclosing, fun h => absurd h hclosed⟩
    (hs.mapped hi) fun h => absurd h (hs.notMem_free hi)
  · rw [← hs.inuse j, hinuse]
    split_ifs with hj
    · rw [hj]
    · rfl
  · rw [hqueue]
    exact hs.queue i side

/-- A queue of a mailbox that is not closed changes. -/
lemma setQueue {q : List ℕ} (hnodup : q.Nodup) (hq : ∀ p ∈ q, (s.procs p).waitsAt = some (i, side)) :
    Inv perPage (s.setMbox i ((s.mboxes i).setQueue side q)) b := by
  refine hs.setMbox (fun j => ?_) (fun side' => ?_) ⟨(hs.sound i).closing, (hs.sound i).closed⟩
    (hs.mapped hi) fun h => absurd h (hs.notMem_free hi)
  · rw [← hs.inuse j]
    split_ifs with hj
    · rw [hj]
      rfl
    · rfl
  · obtain rfl | hside := eq_or_ne side' side
    · simpa [MsgMbox.setQueue] using ⟨hnodup, hq⟩
    · simpa [MsgMbox.setQueue, update_of_ne hside] using hs.queue i side'

end

/-- `mbox->inuse ++`. -/
lemma enter (hs : Inv perPage s none) (hi : (s.mboxes i).state = .opened) :
    Inv perPage (Mbox.enter s i) (some i) := by
  have hne : (s.mboxes i).state ≠ .closed := by simp [hi]
  refine hs.setMbox (fun j => ?_) (hs.queue i) ⟨(hs.sound i).closing, fun h => absurd h hne⟩
    (hs.mapped hne) fun h => absurd h (hs.notMem_free hne)
  have hinuse := hs.inuse j
  obtain rfl | hj := eq_or_ne j i
  · simpa using hinuse
  · simpa [hj, Ne.symm hj] using hinuse

/-- `mbox->inuse --`. -/
lemma exit (hs : Inv perPage s (some i)) :
    Inv perPage (s.setMbox i { s.mboxes i with inuse := (s.mboxes i).inuse - 1 }) none := by
  have hne := hs.ne_closed hs.inuse_ne_zero_of_busy
  refine hs.setMbox (fun j => ?_) (hs.queue i) ⟨(hs.sound i).closing, fun h => absurd h hne⟩
    (hs.mapped hne) fun h => absurd h (hs.notMem_free hne)
  have hinuse := hs.inuse j
  obtain rfl | hj := eq_or_ne j i
  · simp [hinuse]
  · simpa [hj, Ne.symm hj] using hinuse

/-- `wait_current_set`. -/
lemma waitCurrentSet (hs : Inv perPage s (some i)) (hp : s.procs p = .idle)
    (hpc : pc.waitsAt = some (i, side)) : Inv perPage (Mbox.waitCurrentSet s i side p pc) none := by
  have hwaits : (s.procs p).waitsAt = none := by rw [hp]; rfl
  have hset : Inv perPage (s.setPc p pc) none := by
    refine hs.setPc (fun j side' hmem => absurd hmem (hs.notMem_queue hwaits j side')) ?_ fun j => ?_
    · rintro page ⟨maxSlots, rfl⟩
      cases hpc
    · simp [Pc.uses, hpc, hwaits]
  refine hset.setQueue (hs.ne_closed hs.inuse_ne_zero_of_busy) ?_ fun q hq => ?_
  · exact (hs.queue i side).1.append (nodup_singleton p) (disjoint_singleton.mpr (hs.notMem_queue hwaits i side))
  · obtain hq | hq := mem_append.mp hq
    · exact (hset.queue i side).2 q hq
    · rw [mem_singleton.mp hq]
      simpa [State.setPc] using hpc

/-- `wait_current_del`, by the process that has woken up. -/
lemma waitCurrentDel (hs : Inv perPage s none) (hp : (s.procs p).waitsAt = some (i, side)) :
    Inv perPage (Mbox.waitCurrentDel (s.setPc p .idle) i side p) (some i) := by
  have hqueue := hs.queue i side
  have hdel : Inv perPage (s.setMbox i ((s.mboxes i).setQueue side
      (((s.mboxes i).queue side).erase p))) none :=
    hs.setQueue (hs.ne_closed (hs.inuse_ne_zero_of_waits hp)) (hqueue.1.erase p) fun q hq =>
      hqueue.2 q (mem_of_mem_erase hq)
  refine hdel.setPc (fun j side' hmem => ?_) nofun fun j => ?_
  · -- the process was in no other queue
    have hwaits := (hdel.queue j side').2 p hmem
    replace hwaits : (s.procs p).waitsAt = some (j, side') := hwaits
    rw [hp] at hwaits
    cases hwaits
    have hnot : p ∉ ((s.mboxes i).queue side).erase p := fun h => (hqueue.1.mem_erase_iff.mp h).1 rfl
    exact absurd (by simpa [State.setMbox, MsgMbox.setQueue] using hmem) hnot
  · have huses : (s.procs p).uses = some i := by rw [Pc.uses, hp]; rfl
    have hidle : Pc.idle.uses = none := rfl
    simp [State.setMbox, huses, hidle]

variable (hs : Inv perPage s b)
include hs

/-- Another free list. -/
lemma setFree {free : List ℕ} (hnodup : free.Nodup)
    (hfree : ∀ i ∈ free, s.mboxMap (i / perPage) = true ∧ (s.mboxes i).state = .closed) :
    Inv perPage { s with freeMboxList := free } b :=
  ⟨hs.finite, hs.inuse, hs.queue, hs.sound, hs.unmapped, ⟨hnodup, hfree⟩, hs.alloc, hs.alone⟩

/-- The semaphore changes hands. -/
lemma setSem {sem : Bool} (hsem : ∀ p page, (s.procs p).Allocates page → sem = true) :
    Inv perPage { s with semMboxMap := sem } b :=
  ⟨hs.finite, hs.inuse, hs.queue, hs.sound, hs.unmapped, hs.free,
    fun p page hp => ⟨(hs.alloc p page hp).1, hsem p page hp⟩, hs.alone⟩

/-- The account changes. -/
lemma account (sent inits : ℕ) (received : List (Msg × ℕ)) :
    Inv perPage { s with sent := sent, inits := inits, received := received } b :=
  { hs with }

/-- The mailboxes of a page that comes in are fresh already. -/
lemma addPage_mboxes {j : ℕ} (hj : s.mboxMap j = false) : (Mbox.addPage perPage s j).mboxes = s.mboxes := by
  funext i
  rw [Mbox.addPage]
  dsimp only
  split_ifs with hi
  · rw [hs.unmapped i (by rw [hi, hj])]
  · rfl

/-- A page of mailboxes comes in. -/
lemma addPage {j : ℕ} (hj : s.mboxMap j = false)
    (halloc : ∀ p page, ¬(s.procs p).Allocates page) : Inv perPage (Mbox.addPage perPage s j) b := by
  have hmbox := hs.addPage_mboxes hj
  have hold : ∀ i ∈ s.freeMboxList, i / perPage ≠ j := fun i hi hij => by
    have hmap := (hs.free.2 i hi).1
    rw [hij, hj] at hmap
    cases hmap
  have hnew : ∀ k, k ∈ (range perPage).map (j * perPage + ·) → k / perPage = j := by
    grind [mul_comm, Nat.mul_add_div, Nat.div_eq_of_lt]
  constructor
  case finite => exact hs.finite
  case inuse =>
    intro i
    rw [hmbox]
    exact hs.inuse i
  case queue =>
    intro i side
    rw [hmbox]
    exact hs.queue i side
  case sound =>
    intro i
    rw [hmbox]
    exact hs.sound i
  case unmapped =>
    intro i hi
    rw [hmbox]
    refine hs.unmapped i ?_
    by_cases hij : i / perPage = j
    · rw [hij, hj]
    · simpa [Mbox.addPage, update_of_ne hij] using hi
  case free =>
    constructor
    · refine hs.free.1.append ((nodup_range).map fun x y hxy => ?_) fun k hk hk' => ?_
      · exact Nat.add_left_cancel hxy
      · exact hold k hk (hnew k hk')
    · intro i hi
      rw [hmbox]
      obtain hi | hi := mem_append.mp hi
      · refine ⟨?_, (hs.free.2 i hi).2⟩
        simpa [Mbox.addPage, update_of_ne (hold i hi)] using (hs.free.2 i hi).1
      · refine ⟨by simp [Mbox.addPage, hnew i hi], ?_⟩
        rw [hs.unmapped i (by rw [hnew i hi, hj])]
        rfl
  case alloc => exact fun p page hp => absurd hp (halloc p page)
  case alone => exact fun p _ page _ hp => absurd hp (halloc p page)

end Inv

/-! ### The functions of the source -/

section

variable {perPage : ℕ}

variable {panic : Panic}

lemma assert_eq_ok {P : Prop} [Decidable P] (h : P) : assert panic P = .ok () :=
  if_pos h

variable {id : ℤ}

/-- `get_mbox` finds a mailbox that is open. -/
lemma opened_of_getMbox (h : getMbox perPage s id = some i) : (s.mboxes i).state = .opened := by grind [getMbox]

lemma core_waitCurrentSet : (waitCurrentSet s i side p pc).core = s.core.setHeld p pc.held := by
  rw [waitCurrentSet, core_setPc, core_setMbox, setBox_self]
  rfl

lemma core_waitCurrentDel : (waitCurrentDel s i side p).core = s.core := by
  rw [waitCurrentDel, core_setMbox, setBox_self]
  rfl

lemma core_enter : (enter s i).core = s.core := by
  rw [enter, core_setMbox, setBox_self]
  rfl

lemma core_exit {n : ℕ} : (s.setMbox i { s.mboxes i with inuse := n }).core = s.core := by
  rw [core_setMbox, setBox_self]
  rfl

/-- `mbox_free` of a mailbox that nobody uses. -/
lemma mboxFree_spec (hs : Inv perPage s none) (hclosing : (s.mboxes i).state = .closing)
    (hinuse : (s.mboxes i).inuse = 0) :
    ∃ s', mboxFree s i = .ok s' ∧ Inv perPage s' none ∧ Move s.core s'.core := by
  have hne : (s.mboxes i).state ≠ .closed := by simp [hclosing]
  set b : MsgMbox := { s.mboxes i with state := .closed, maxSlots := 0, slots := 0 } with hb
  refine ⟨{ s.setMbox i b with freeMboxList := s.freeMboxList ++ [i] }, ?_, ?_, ?_⟩
  · rw [mboxFree, assert_eq_ok ⟨hclosing, hinuse⟩, assert_eq_ok ((hs.sound i).closing hclosing),
      assert_eq_ok (hs.queue_eq_nil hinuse .senders), assert_eq_ok (hs.queue_eq_nil hinuse .receivers)]
    rfl
  · have hset : Inv perPage (s.setMbox i b) none := by
      refine hs.setMbox (fun j => ?_) (hs.queue i)
        ⟨nofun, fun _ => ⟨hinuse, rfl, (hs.sound i).closing hclosing⟩⟩
        (hs.mapped hne) fun _ => rfl
      rw [← hs.inuse j]
      split_ifs with hj
      · rw [hj]
      · rfl
    refine hset.setFree ?_ fun j hj => ?_
    · exact hs.free.1.append (nodup_singleton i) (disjoint_singleton.mpr (hs.notMem_free hne))
    · obtain hj | hj := mem_append.mp hj
      · exact hset.free.2 j hj
      · rw [mem_singleton.mp hj]
        exact ⟨hs.mapped hne, by simp [hb, State.setMbox]⟩
  · show Move s.core (s.setMbox i b).core
    rw [core_setMbox]
    exact Move.retire i

/-- The way out of `send_msg` and `recv_msg` from a mailbox that is open. -/
lemma leave_opened {ok : Bool} (hopen : (s.mboxes i).state = .opened) :
    leave s i ok panic = .ok (s.setMbox i { s.mboxes i with inuse := (s.mboxes i).inuse - 1 }) := by
  rw [leave]
  exact if_neg (not_not_intro hopen)

/-- The call returns, with the invariant, and the core moves on. -/
abbrev Advances (perPage : ℕ) (c : Core) (x : Except Panic State) : Prop :=
  ∃ s', x = .ok s' ∧ Inv perPage s' none ∧ Moves c s'.core

/-- The way out with an error. -/
lemma leave_spec (panic : Panic) (hs : Inv perPage s (some i)) :
    Advances perPage s.core (leave s i false panic) := by
  by_cases hopen : (s.mboxes i).state = .opened
  · refine ⟨_, leave_opened hopen, hs.exit, ?_⟩
    rw [core_exit]
  · have hclosing : (s.mboxes i).state = .closing := by
      cases hstate : (s.mboxes i).state with
      | closed => exact absurd hstate (hs.ne_closed hs.inuse_ne_zero_of_busy)
      | opened => exact absurd hstate hopen
      | closing => rfl
    have hself : (s.setMbox i { s.mboxes i with inuse := (s.mboxes i).inuse - 1 }).mboxes i =
        { s.mboxes i with inuse := (s.mboxes i).inuse - 1 } := update_self _ _ _
    rw [leave]
    rw [if_pos hopen, assert_eq_ok ⟨rfl, hclosing⟩, ok_bind]
    split_ifs with hinuse
    · obtain ⟨s', hfree, hs', hmove⟩ := mboxFree_spec hs.exit (by rw [hself]; exact hclosing)
        (by rw [hself]; exact hinuse)
      grind [core_exit]
    · refine ⟨_, rfl, hs.exit, ?_⟩
      rw [core_exit]

/-- `add_msg` to a mailbox that is open. -/
lemma addMsg_spec (msg : Msg) (append : Bool) (hs : Inv perPage s b)
    (hopen : (s.mboxes i).state = .opened) : ∃ s', addMsg s i msg append = .ok s' ∧ Inv perPage s' b ∧
      Woken (s.setMbox i { s.mboxes i with
        slots := (s.mboxes i).slots + 1
        msgs := if append then (s.mboxes i).msgs ++ [msg] else msg :: (s.mboxes i).msgs }) s' := by
  generalize hs₁ : s.setMbox i _ = s₁
  have hset : Inv perPage s₁ b := by
    rw [← hs₁]
    refine hs.setMsgs ?_ rfl rfl (fun h => ?_) ?_
    · simp [hopen]
    · simp [hopen] at h
    · simp [hopen]
  have hwoken := wakeupFirst_woken s₁ i .receivers .mbox
  refine ⟨_, ?_, hset.woken hwoken, hwoken⟩
  rw [addMsg, assert_eq_ok hopen, ← hs₁]
  rfl

variable {msg : Msg}

/-- `send_msg` from the beginning of its loop, for a process that has the message `msg` in the core
`c`. -/
lemma sendTurn_spec (hs : Inv perPage s (some i)) (hp : s.procs p = .idle)
    (hopen : (s.mboxes i).state = .opened) (hheld : c.held p = some (.waiting i msg))
    (hc : s.core = c.setHeld p none) : Advances perPage c (sendTurn s p i msg) := by
  have hbox : c.boxes i = (s.mboxes i).box := by
    rw [← core_boxes, hc]
    rfl
  rw [sendTurn]
  split_ifs with hfull
  · refine ⟨_, by rw [assert_eq_ok hopen]; rfl, hs.waitCurrentSet hp rfl, ?_⟩
    rw [core_waitCurrentSet, hc, setHeld_setHeld]
    show Moves c (c.setHeld p (some (.waiting i msg)))
    rw [setHeld_self hheld]
  · obtain ⟨s', hadd, hs', hwoken⟩ := addMsg_spec msg true hs hopen
    have hopen' : (s'.mboxes i).state = .opened := by
      rw [hwoken.mbox i]
      simpa [State.setMbox] using hopen
    rw [assert_eq_ok hopen, ok_bind, hadd, ok_bind, leave_opened hopen']
    refine ⟨_, rfl, hs'.exit, Relation.ReflTransGen.single ?_⟩
    rw [core_exit, hwoken.core_eq, core_setMbox, hc]
    have hpost := Move.post p i msg hheld (by rw [hbox]; exact Nat.lt_of_not_le hfull)
    rw [Core.deliver, hbox] at hpost
    exact hpost

/-- A mailbox without its first message, and with its first sender woken up. -/
def picked (s : State) (i : ℕ) (msgs : List Msg) : State :=
  wakeupFirst (s.setMbox i { s.mboxes i with slots := (s.mboxes i).slots - 1, msgs := msgs }) i
    .senders .mbox

lemma picked_woken (s : State) (i : ℕ) (msgs : List Msg) :
    Woken (s.setMbox i { s.mboxes i with slots := (s.mboxes i).slots - 1, msgs := msgs }) (picked s i msgs) :=
  wakeupFirst_woken _ i .senders .mbox

/-- `recv_msg` when there is a message that fits. -/
lemma recvTurn_take {size : ℕ} {msgs : List Msg}
    (hopen : (s.mboxes i).state = .opened) (hslots : (s.mboxes i).slots ≠ 0)
    (hmsgs : (s.mboxes i).msgs = msg :: msgs) (hsize : msg.bytes ≤ size) :
    recvTurn s p id i size = .ok (((picked s i msgs).setMbox i { (picked s i msgs).mboxes i with
      inuse := ((picked s i msgs).mboxes i).inuse - 1 }).setPc p
        (.recvCopy id msg (s.mboxes i).inst)) := by
  have hopen' : ((picked s i msgs).mboxes i).state = .opened := by
    rw [(picked_woken s i msgs).mbox i]
    simpa [State.setMbox] using hopen
  have hne : (s.mboxes i).msgs ≠ [] := by simp [hmsgs]
  rw [recvTurn, if_neg hslots, assert_eq_ok hopen, ok_bind, assert_eq_ok hne, ok_bind,
    pickMsg, assert_eq_ok ⟨hopen, pos_of_ne_zero hslots⟩, ok_bind, hmsgs]
  grind [pure_eq_ok, ok_bind, picked, leave_opened]

/-- `recv_msg` from the beginning of its loop. -/
lemma recvTurn_spec (id : ℤ) (size : ℕ) (hs : Inv perPage s (some i)) (hp : s.procs p = .idle)
    (hopen : (s.mboxes i).state = .opened) (hcounts : Counts s.core) :
    Advances perPage s.core (recvTurn s p id i size) := by
  have hlen : (s.mboxes i).msgs.length = (s.mboxes i).slots := hcounts i hopen
  have hheld : s.core.held p = none := by
    rw [core_held, hp]
    rfl
  by_cases hslots : (s.mboxes i).slots = 0
  · rw [recvTurn, if_pos hslots, assert_eq_ok hopen]
    refine ⟨_, rfl, hs.waitCurrentSet hp rfl, ?_⟩
    rw [core_waitCurrentSet]
    show Moves s.core (s.core.setHeld p none)
    rw [setHeld_self hheld]
  · obtain ⟨msg, msgs, hmsgs⟩ : ∃ msg msgs, (s.mboxes i).msgs = msg :: msgs := by
      cases hmsgs : (s.mboxes i).msgs with
      | nil =>
        rw [hmsgs] at hlen
        exact absurd hlen.symm hslots
      | cons msg msgs => exact ⟨msg, msgs, rfl⟩
    by_cases hsize : size < msg.bytes
    · have hne : (s.mboxes i).msgs ≠ [] := by simp [hmsgs]
      have hwoken := wakeupFirst_woken s i .receivers .mbox
      rw [recvTurn, if_neg hslots, assert_eq_ok hopen, ok_bind, assert_eq_ok hne,
        ok_bind, pickMsg, assert_eq_ok ⟨hopen, pos_of_ne_zero hslots⟩, ok_bind, hmsgs]
      dsimp only
      rw [if_pos hsize, pure_eq_ok, ok_bind]
      dsimp only
      rw [leave_opened (by rw [hwoken.mbox i]; exact hopen)]
      refine ⟨_, rfl, (hs.woken hwoken).exit, ?_⟩
      rw [core_exit, hwoken.core_eq]
    · have hwoken := picked_woken s i msgs
      have hset : Inv perPage
          (s.setMbox i { s.mboxes i with slots := (s.mboxes i).slots - 1, msgs := msgs })
          (some i) := by
        refine hs.setMsgs ?_ rfl rfl (fun h => ?_) ?_
        · simp [hopen]
        · simp [hopen] at h
        · simp [hopen]
      have hwaits : ((picked s i msgs).procs p).waitsAt = none := by
        rw [hwoken.waitsAt_eq]
        show (s.procs p).waitsAt = none
        rw [hp]
        rfl
      refine ⟨_, recvTurn_take hopen hslots hmsgs (Nat.le_of_not_lt hsize),
        (hset.woken hwoken).exit.setPc_awake hwaits rfl nofun, ?_⟩
      rw [core_setPc, core_exit, hwoken.core_eq, core_setMbox]
      exact Relation.ReflTransGen.single (Move.take p i msg msgs hheld hmsgs)

/-- The end of `new_mbox`. -/
lemma openMbox_spec (maxSlots : ℕ) (hs : Inv perPage s none) (hfree : s.freeMboxList ≠ []) :
    ∃ s', openMbox s maxSlots = .ok s' ∧ Inv perPage s' none ∧ Move s.core s'.core := by
  obtain ⟨i, rest, hlist⟩ := exists_cons_of_ne_nil hfree
  have hmem : i ∈ s.freeMboxList := by simp [hlist]
  have hnodup := hs.free.1
  rw [hlist, nodup_cons] at hnodup
  obtain ⟨hmap, hclosed⟩ := hs.free.2 i hmem
  obtain ⟨hinuse, hslots, hmsgs⟩ := (hs.sound i).closed hclosed
  have hrest : Inv perPage { s with freeMboxList := rest } none :=
    hs.setFree hnodup.2 fun j hj => hs.free.2 j (by simp [hlist, hj])
  set b : MsgMbox := { s.mboxes i with state := .opened, maxSlots := maxSlots, inst := s.inits } with hb
  have hset : Inv perPage (State.setMbox { s with freeMboxList := rest } i b) none := by
    refine hrest.setMbox (fun j => ?_) (hs.queue i) ⟨nofun, nofun⟩ hmap fun h => absurd h hnodup.1
    rw [← hrest.inuse j]
    split_ifs with hj
    · rw [hj]
    · rfl
  refine ⟨_, by rw [openMbox, hlist]; rfl, hset.account s.sent (s.inits + 1) s.received, ?_⟩
  have hmove := Move.opened i maxSlots hclosed hslots hmsgs (hs.noneWaits hinuse)
  have hbox : b.box = ⟨.opened, maxSlots, 0, [], s.inits⟩ := by
    rw [hb, MsgMbox.box, hslots, hmsgs]
  show Move s.core { (s.setMbox i b).core with inits := s.inits + 1 }
  rw [core_setMbox, hbox]
  exact hmove

end

end UcoreKernel.Mbox
