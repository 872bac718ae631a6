import UcoreKernel.Sync.MboxInv
import UcoreKernel.Lib.Guarded

/-!
Runs of the mailboxes: their bounds, and the messages that are received.

A section of a process is a sequence of moves of messages (`step_spec`), with one exception: a
receiver whose copy to user memory fails looks its identifier up again and puts the message back to
the front of the mailbox it finds. A sender may have used the slot in the meantime, and the mailbox
may be another instance.

* `capacity_iff`: the bound holds on a run exactly if there is room for every message that is put
  back; the count is right on every run;
* `isolation_iff`: no message is received twice, and messages are received from the instance they
  were sent to if they are put back into it; one that is put back into another can be received there.
-/

namespace UcoreKernel.Mbox

open Guarded Function List Relation.ReflTransGen State

variable {perPage : ℕ} {s s' : State} {p i : ℕ} {id : ℤ} {msg : Msg}

/-! ### Sections -/

section Sections

variable {flags : WakeupFlags}

/-- A process that has slept leaves the queue, and has no message for the moment. -/
lemma core_woken (side : Side) : (waitCurrentDel (s.setPc p .idle) i side p).core = s.core.setHeld p none := by
  rw [core_waitCurrentDel, core_setPc]
  rfl

lemma core_setPc_of_held_eq_none {pc : Pc} (hp : (s.procs p).held = none) (hpc : pc.held = none) :
    (s.setPc p pc).core = s.core := by
  rw [core_setPc, hpc, setHeld_self hp]

section

variable (hs : Inv perPage s none)
include hs

lemma sendResume_spec (hp : s.procs p = .sendWait i msg flags) :
    Advances perPage s.core (sendResume s p i msg flags) := by
  have hwaits : (s.procs p).waitsAt = some (i, .senders) := by rw [hp]; rfl
  have hdel := hs.waitCurrentDel hwaits
  have hcore : (waitCurrentDel (s.setPc p .idle) i .senders p).core = s.core.setHeld p none :=
    core_woken .senders
  rw [sendResume]
  split_ifs with hfail
  · obtain ⟨s', hleave, hs', hmoves⟩ := leave_spec .sendMsg hdel
    refine ⟨s', hleave, hs', head ?_ hmoves⟩
    rw [hcore]
    exact Move.drop p
  · push Not at hfail
    refine sendTurn_spec hdel (update_self _ _ _) hfail.1 ?_ hcore
    rw [core_held, hp]
    rfl

lemma recvResume_spec {size : ℕ} (hcounts : Counts s.core) (hp : s.procs p = .recvWait id i size flags) :
    Advances perPage s.core (recvResume s p id i size flags) := by
  have hwaits : (s.procs p).waitsAt = some (i, .receivers) := by rw [hp]; rfl
  have hdel := hs.waitCurrentDel hwaits
  have hcore : (waitCurrentDel (s.setPc p .idle) i .receivers p).core = s.core := by
    rw [core_woken, setHeld_self]
    rw [core_held, hp]
    rfl
  rw [recvResume]
  split_ifs with hfail
  · obtain ⟨s', hleave, hs', hmoves⟩ := leave_spec .recvMsg hdel
    exact ⟨s', hleave, hs', hcore ▸ hmoves⟩
  · push Not at hfail
    have hturn := recvTurn_spec id size hdel (update_self _ _ _) hfail.1 (hcore.symm ▸ hcounts)
    rwa [hcore] at hturn

lemma sendLoaded_spec {bytes : Option ℕ} (hp : s.procs p = .sendLoad id) :
    Advances perPage s.core (sendLoaded perPage s p id bytes) := by
  have hidle : Inv perPage (s.setPc p .idle) none := hs.setPc_idle (hp ▸ rfl)
  have hcore : (s.setPc p .idle).core = s.core :=
    core_setPc_of_held_eq_none (hp ▸ rfl) rfl
  have hstop : Advances perPage s.core (.ok (s.setPc p .idle)) := ⟨_, rfl, hidle, by rw [hcore]⟩
  unfold sendLoaded
  cases bytes with
  | none => exact hstop
  | some bytes =>
    dsimp only
    split_ifs with hbytes
    · cases hget : getMbox perPage (s.setPc p .idle) id with
      | none => exact hstop
      | some i =>
        have hopen := opened_of_getMbox hget
        have henter := (hidle.account (s.sent + 1) s.inits s.received).enter hopen
        have hmake := Move.make p i p bytes (by rw [core_held, hp]; rfl)
        obtain ⟨s', hturn, hs', hmoves⟩ := sendTurn_spec henter
          (update_self _ _ _) (by simpa [enter, setMbox] using hopen)
          (c := { s.core.setHeld p (some (.waiting i
            ⟨p, bytes, s.core.sent, (s.core.boxes i).inst⟩)) with sent := s.core.sent + 1 })
          (update_self _ _ _) (by
            rw [core_enter]
            have hpc : (s.setPc p .idle).core = s.core.setHeld p none := core_setPc
            show { (s.setPc p .idle).core with sent := s.sent + 1 } = _
            rw [hpc]
            simp [Core.setHeld, core])
        exact ⟨s', hturn, hs', head hmake hmoves⟩
    · exact hstop

lemma recvChecked_spec {size : Option ℕ} (hcounts : Counts s.core) (hp : s.procs p = .recvCheck id) :
    Advances perPage s.core (recvChecked perPage s p id size) := by
  have hidle : Inv perPage (s.setPc p .idle) none := hs.setPc_idle (hp ▸ rfl)
  have hcore : (s.setPc p .idle).core = s.core :=
    core_setPc_of_held_eq_none (hp ▸ rfl) rfl
  have hstop : Advances perPage s.core (.ok (s.setPc p .idle)) := ⟨_, rfl, hidle, by rw [hcore]⟩
  unfold recvChecked
  cases size with
  | none => exact hstop
  | some size =>
    dsimp only
    split_ifs with hsize
    · cases hget : getMbox perPage (s.setPc p .idle) id with
      | none => exact hstop
      | some i =>
        have hopen := opened_of_getMbox hget
        have hcore' : (enter (s.setPc p .idle) i).core = s.core := by rw [core_enter, hcore]
        have hturn := recvTurn_spec id size (hidle.enter hopen)
          (update_self _ _ _) (by simpa [enter, setMbox] using hopen)
          (hcore'.symm ▸ hcounts)
        rwa [hcore'] at hturn
    · exact hstop

lemma ipcMboxFree_spec : Advances perPage s.core (ipcMboxFree perPage s id) := by
  rw [ipcMboxFree]
  cases hget : getMbox perPage s id with
  | none => exact ⟨s, rfl, hs, Relation.ReflTransGen.refl⟩
  | some i =>
    have hopen := opened_of_getMbox hget
    set s₁ := s.setMbox i { s.mboxes i with state := .closing, msgs := [] } with hs₁
    have hset : Inv perPage s₁ none := hs.setMsgs (by simp [hopen]) rfl rfl (fun _ => rfl) (by simp)
    have hwoken := (wakeupQueue_woken s₁ i .senders .interrupted).trans (wakeupQueue_woken _ i .receivers .interrupted)
    have hmove : Move s.core (wakeupQueue (wakeupQueue s₁ i .senders .interrupted) i .receivers
        .interrupted).core := by
      rw [hwoken.core_eq, core_setMbox]
      exact Move.close i
    dsimp only
    split_ifs with hinuse
    · obtain ⟨s', hfree, hs', hretire⟩ := mboxFree_spec (hset.woken hwoken)
        (by rw [hwoken.mbox i]; simp [hs₁, setMbox]) hinuse
      grind
    · exact ⟨_, rfl, hset.woken hwoken, single hmove⟩

lemma initStart_spec {maxSlots : ℕ} (hp : s.procs p = .idle) :
    Advances perPage s.core (initStart perPage s p maxSlots) := by
  have hstop : Advances perPage s.core (.ok s) := ⟨s, rfl, hs, Relation.ReflTransGen.refl⟩
  rw [initStart]
  split_ifs with hslots hsem hfree
  · exact hstop
  · exact hstop
  · split
    case h_1 => exact hstop
    case h_2 j hfind =>
      have hnone : ∀ q page, ¬(s.procs q).Allocates page := fun q page hq => by
        simp [(hs.alloc q page hq).2] at hsem
      have hj : s.mboxMap j = false := by simpa using find?_some hfind
      have htaken : Inv perPage { s with semMboxMap := true } none := hs.setSem fun _ _ _ => rfl
      have hwaits : (s.procs p).waitsAt = none := by rw [hp]; rfl
      have hset : Inv perPage (setPc { s with semMboxMap := true } p (.initAlloc maxSlots j)) none := by
        refine htaken.setPc (fun i side hmem => absurd hmem (hs.notMem_queue hwaits i side)) ?_ fun i => ?_
        · rintro page ⟨maxSlots', hpc⟩
          grind
        · have huses : (s.procs p).uses = none := by rw [hp]; rfl
          have halloc : (Pc.initAlloc maxSlots j).uses = none := rfl
          simp [huses, halloc]
      refine ⟨_, rfl, hset, ?_⟩
      show Moves s.core (s.setPc p (.initAlloc maxSlots j)).core
      rw [core_setPc_of_held_eq_none (hp ▸ rfl) rfl]
  · obtain ⟨s', hopen, hs', hmove⟩ := openMbox_spec maxSlots hs hfree
    grind

end

lemma initFinish_spec {maxSlots j : ℕ} {page : Bool} (hperPage : 0 < perPage)
    (hs : Inv perPage s none) (hp : s.procs p = .initAlloc maxSlots j) :
    Advances perPage s.core (initFinish perPage s p maxSlots j page) := by
  have hidle : Inv perPage (s.setPc p .idle) none := hs.setPc_idle (hp ▸ rfl)
  have hnone : ∀ q page, ¬((s.setPc p .idle).procs q).Allocates page := by
    intro q page hq
    obtain rfl | hqp := eq_or_ne q p
    · rw [show (s.setPc q .idle).procs q = .idle from update_self _ _ _] at hq
      exact nomatch hq
    · rw [show (s.setPc p .idle).procs q = s.procs q from update_of_ne hqp _ _] at hq
      exact hqp (hs.alone q p page j hq ⟨maxSlots, hp⟩)
  have hopen : Inv perPage { s.setPc p .idle with semMboxMap := false } none :=
    hidle.setSem fun q page hq => absurd hq (hnone q page)
  have hcore : ({ s.setPc p .idle with semMboxMap := false } : State).core = s.core := by
    show (s.setPc p .idle).core = s.core
    exact core_setPc_of_held_eq_none (hp ▸ rfl) rfl
  rw [initFinish]
  split_ifs with hpage hfree
  · have hadd := hopen.addPage (hs.alloc p j ⟨maxSlots, hp⟩).1 hnone
    obtain ⟨s', hmbox, hs', hmove⟩ := openMbox_spec maxSlots hadd (by
      grind [addPage, append_eq_nil_iff, map_eq_nil_iff])
    have hcore' : (addPage perPage { s.setPc p .idle with semMboxMap := false } j).core = s.core := by
      rw [← hcore, core, hopen.addPage_mboxes (hs.alloc p j ⟨maxSlots, hp⟩).1]
      rfl
    grind
  · exact ⟨_, rfl, hopen, by rw [hcore]⟩
  · obtain ⟨s', hmbox, hs', hmove⟩ := openMbox_spec maxSlots hopen hfree
    grind

end Sections

/-! ### One step -/

section

variable (perPage : ℕ)

/-- The process, the mailbox and the message, if the section puts a message back. -/
def putsBack (s : State) : Event → Option (ℕ × ℕ × Msg)
  | .recvCopied p false =>
    match s.procs p with
    | .recvCopy id msg _ => (getMbox perPage s id).map fun i => (p, i, msg)
    | _ => none
  | _ => none

/-- What a section has done with the messages. -/
def Effect (s : State) (e : Event) (s' : State) : Prop :=
  match putsBack perPage s e with
  | some (p, i, msg) => s'.core = s.core.putBack p i msg
  | none => Moves s.core s'.core

end

variable {e : Event}

/-- The event of a message that is put back. -/
lemma eq_of_putsBack (h : putsBack perPage s e = some (p, i, msg)) :
    e = .recvCopied p false ∧ ∃ id inst, s.procs p = .recvCopy id msg inst ∧ getMbox perPage s id = some i := by
  unfold putsBack at h
  split at h
  case h_1 q =>
    split at h
    case h_1 id msg' inst hq =>
      obtain ⟨j, hget, hEq⟩ := Option.map_eq_some_iff.mp h
      cases hEq
      exact ⟨rfl, id, inst, hq, hget⟩
    case h_2 => cases h
  case h_2 => cases h

variable {inst : ℕ}

lemma putsBack_of_copy (hp : s.procs p = .recvCopy id msg inst) :
    putsBack perPage s (.recvCopied p false) = (getMbox perPage s id).map fun i => (p, i, msg) := by
  rw [putsBack, hp]

/-- A copy that fails. -/
lemma recvCopied_false : recvCopied perPage s p id msg inst false =
    match getMbox perPage s id with
    | none => .ok (s.setPc p .idle)
    | some i => addMsg (s.setPc p .idle) i msg false := rfl

lemma recvCopied_spec (ok : Bool) (hs : Inv perPage s none) (hp : s.procs p = .recvCopy id msg inst) :
    ∃ s', recvCopied perPage s p id msg inst ok = .ok s' ∧ Inv perPage s' none ∧
      Effect perPage s (.recvCopied p ok) s' := by
  have hidle : Inv perPage (s.setPc p .idle) none := hs.setPc_idle (hp ▸ rfl)
  have hcore : (s.setPc p .idle).core = s.core.setHeld p none := core_setPc
  cases ok with
  | true =>
    refine ⟨_, rfl, hidle.account s.sent s.inits (s.received ++ [(msg, inst)]), single ?_⟩
    show Move s.core { (s.setPc p .idle).core with received := s.received ++ [(msg, inst)] }
    rw [hcore]
    exact Move.receive p inst msg (by rw [core_held, hp]; rfl)
  | false =>
    unfold Effect
    rw [putsBack_of_copy hp]
    cases hget : getMbox perPage s id with
    | none =>
      refine ⟨s.setPc p .idle, ?_, hidle, single ?_⟩
      · rw [recvCopied_false, hget]
      · rw [hcore]
        exact Move.drop p
    | some i =>
      obtain ⟨s', hadd, hs', hwoken⟩ := addMsg_spec msg false hidle (opened_of_getMbox hget)
      refine ⟨s', ?_, hs', ?_⟩
      · rw [recvCopied_false, hget]
        exact hadd
      · show s'.core = s.core.putBack p i msg
        rw [hwoken.core_eq, core_setMbox, hcore]
        rfl

/-- A section does not panic, keeps the invariant, and moves messages. -/
lemma step_spec (hperPage : 0 < perPage) (hs : Inv perPage s none) (hcounts : Counts s.core)
    (e : Event) : ∃ s', step perPage s e = .ok s' ∧ Inv perPage s' none ∧ Effect perPage s e s' := by
  have hstop : Advances perPage s.core (.ok s) := ⟨s, rfl, hs, Relation.ReflTransGen.refl⟩
  have hstart : ∀ p id pc, s.procs p = .idle → pc.waitsAt = none → pc.held = none →
      (∀ page, ¬pc.Allocates page) → Advances perPage s.core
        (.ok (if getMbox perPage s id = none then s else s.setPc p pc)) := by
    intro p id pc hp hwaits hheld halloc
    split_ifs with hget
    · exact hstop
    · refine ⟨_, rfl, hs.setPc_awake (hp ▸ rfl) hwaits halloc, ?_⟩
      rw [core_setPc_of_held_eq_none (hp ▸ rfl) hheld]
  cases e with
  | initStart p maxSlots =>
    rw [step]
    split_ifs with hp
    · exact initStart_spec hs hp
    · exact hstop
  | initFinish p page =>
    rw [step]
    split
    case h_1 maxSlots j hp => exact initFinish_spec hperPage hs hp
    case h_2 => exact hstop
  | sendStart p id | recvStart p id =>
    rw [step]
    by_cases hp : s.procs p = .idle
    · rw [if_pos hp]
      exact hstart p id _ hp rfl rfl nofun
    · rw [if_neg hp]
      exact hstop
  | sendLoaded p bytes =>
    rw [step]
    split
    case h_1 id hp => exact sendLoaded_spec hs hp
    case h_2 => exact hstop
  | recvChecked p size =>
    rw [step]
    split
    case h_1 id hp => exact recvChecked_spec hs hcounts hp
    case h_2 => exact hstop
  | recvCopied p ok =>
    rw [step]
    split
    case h_1 id msg inst hp => exact recvCopied_spec ok hs hp
    case h_2 hp =>
      refine ⟨s, rfl, hs, ?_⟩
      have hnone : putsBack perPage s (.recvCopied p ok) = none := by
        by_contra hne
        obtain ⟨⟨q, i, msg⟩, hsome⟩ := Option.ne_none_iff_exists'.mp hne
        obtain ⟨hEq, id, inst, hq, -⟩ := eq_of_putsBack hsome
        cases hEq
        exact hp id msg inst hq
      unfold Effect
      rw [hnone]
  | resume p =>
    rw [step]
    split
    case h_1 i msg flags hp => exact sendResume_spec hs hp
    case h_2 id i size flags hp => exact recvResume_spec hs hcounts hp
    case h_3 => exact hstop
  | free p id =>
    rw [step]
    split_ifs with hp
    · exact ipcMboxFree_spec hs
    · exact hstop

/-! ### What every section keeps -/

/-- What moves of messages keep, and a message that is put back, is kept by every section. -/
lemma Effect.keeps {P : Core → Prop} (h : Effect perPage s e s') (hs : P s.core)
    (hmove : ∀ c c', Move c c' → P c → P c')
    (hback : ∀ p i msg, putsBack perPage s e = some (p, i, msg) → P (s.core.putBack p i msg)) : P s'.core := by
  unfold Effect at h
  split at h
  case h_1 p i msg hput =>
    rw [h]
    exact hback p i msg hput
  case h_2 => exact Moves.keeps hmove h hs

lemma Effect.counts (h : Effect perPage s e s') (hs : Counts s.core) : Counts s'.core :=
  h.keeps hs (fun _ _ hmove => hmove.counts) fun _ _ _ _ => counts_putBack hs

/-- A message that is put back was with its process. -/
lemma held_of_putsBack (h : putsBack perPage s e = some (p, i, msg)) :
    ∃ inst, s.core.held p = some (.taken msg inst) := by
  obtain ⟨-, id, inst, hp, -⟩ := eq_of_putsBack h
  refine ⟨inst, ?_⟩
  rw [core_held, hp]
  rfl

lemma opened_of_putsBack (h : putsBack perPage s e = some (p, i, msg)) : (s.mboxes i).state = .opened := by
  obtain ⟨-, id, inst, -, hget⟩ := eq_of_putsBack h
  exact opened_of_getMbox hget

lemma Effect.placed (h : Effect perPage s e s') (hs : ∃ place, Placed s.core place) :
    ∃ place, Placed s'.core place := by
  refine h.keeps (P := fun c => ∃ place, Placed c place) hs
    (fun _ _ hmove ⟨_, hplace⟩ => hmove.placed hplace) fun p i msg hput => ?_
  obtain ⟨place, hplace⟩ := hs
  obtain ⟨inst, hheld⟩ := held_of_putsBack hput
  exact ⟨_, hplace.deliver hheld (List.Perm.refl _)⟩

/-- The invariant of every run. -/
structure RunInv (perPage : ℕ) (s : State) : Prop where
  inv : Inv perPage s none
  counts : Counts s.core
  placed : ∃ place, Placed s.core place

lemma runInv_mboxInit : RunInv perPage mboxInit where
  inv := {
    finite := by simp [mboxInit]
    inuse := fun i => by
      rw [sleepers, Tally.tally_eq_zero fun _ h => by cases h]
      rfl
    queue := fun i side => ⟨nodup_nil, nofun⟩
    sound := fun i => ⟨nofun, fun _ => ⟨rfl, rfl, rfl⟩⟩
    unmapped := fun _ _ => rfl
    free := ⟨nodup_nil, nofun⟩
    alloc := nofun
    alone := nofun }
  counts := nofun
  placed := ⟨fun _ => .done, ⟨nofun, fun _ => nodup_nil,
    nofun, nofun, nodup_nil⟩⟩

section

variable (hperPage : 0 < perPage)
include hperPage

lemma RunInv.step (hs : RunInv perPage s) (e : Event) :
    ∃ s', Mbox.step perPage s e = .ok s' ∧ RunInv perPage s' ∧ Effect perPage s e s' := by
  obtain ⟨s', hstep, hinv, heffect⟩ := step_spec hperPage hs.inv hs.counts e
  exact ⟨s', hstep, ⟨hinv, heffect.counts hs.counts, heffect.placed hs.placed⟩, heffect⟩

/-- What follows from the invariant holds along every run. -/
lemma correct_of_runInv {Good : State → Prop}
    (hgood : ∀ s, RunInv perPage s → Good s) (es : List Event) : Correct (step perPage) Good mboxInit es := by
  have hany : AllSafe (step perPage) (fun _ _ => True) mboxInit es :=
    allSafe_of_forall_mem (fun _ _ _ => trivial) _
  refine correct_of_allSafe (RunInv perPage) hgood (fun s e hs _ => ?_) runInv_mboxInit hany
  obtain ⟨s', hstep, hs', -⟩ := hs.step hperPage e
  exact ⟨s', hstep, hs'⟩

lemma runInv_of_run {es : List Event}
    (hrun : es.foldlM (step perPage) mboxInit = .ok s) : RunInv perPage s := by
  have hstep : ∀ s e, RunInv perPage s → ∃ s', step perPage s e = .ok s' ∧ RunInv perPage s' :=
    fun s e hs => (hs.step hperPage e).imp fun _ h => ⟨h.1, h.2.1⟩
  obtain ⟨s', hrun', hs'⟩ := exists_foldlM hstep runInv_mboxInit es
  rwa [Except.ok.inj (hrun.symm.trans hrun')]

end

/-! ### The bound -/

/-- A mailbox that is open has as many messages as slots in use. -/
def Counted (s : State) : Prop :=
  ∀ i, (s.mboxes i).state = .opened → (s.mboxes i).msgs.length = (s.mboxes i).slots

/-- And it has no more of them than it has slots. -/
def Capacity (s : State) : Prop :=
  ∀ i, (s.mboxes i).state = .opened →
    (s.mboxes i).msgs.length = (s.mboxes i).slots ∧ (s.mboxes i).slots ≤ (s.mboxes i).maxSlots

/-- There is room for a message that is put back. -/
def Roomy (perPage : ℕ) (s : State) (e : Event) : Prop :=
  ∀ x ∈ putsBack perPage s e, (s.mboxes x.2.1).slots < (s.mboxes x.2.1).maxSlots

instance (perPage : ℕ) (s : State) (e : Event) : Decidable (Roomy perPage s e) :=
  inferInstanceAs (Decidable (∀ x ∈ putsBack perPage s e, _))

lemma capacity_iff_room (hs : Counts s.core) : Capacity s ↔ Room s.core :=
  ⟨fun h i hi => (h i hi).2, fun h i hi => ⟨hs i hi, h i hi⟩⟩

/-- The slots of a mailbox in use are its messages, whatever the processes do. They are no more than
its slots exactly as long as there is room for the messages that are put back. -/
theorem capacity_iff (hperPage : 0 < perPage) (es : List Event) : Correct (step perPage) Counted mboxInit es ∧
      (Correct (step perPage) Capacity mboxInit es ↔
        AllSafe (step perPage) (Roomy perPage) mboxInit es) := by
  constructor
  · exact correct_of_runInv hperPage (fun s hs => hs.counts) es
  · refine correct_iff_allSafe (fun s => RunInv perPage s ∧ Room s.core)
      (fun s hs => (capacity_iff_room hs.1.counts).mpr hs.2) (fun s e hs hroomy => ?_)
      (fun s e s' hs hroomy hstep hcap => ?_) ⟨runInv_mboxInit, nofun⟩ es
    · obtain ⟨s', hstep, hs', heffect⟩ := hs.1.step hperPage e
      refine ⟨s', hstep, hs', heffect.keeps hs.2 (fun _ _ hmove => hmove.room) ?_⟩
      intro p i msg hput
      exact (room_putBack_iff hs.2 (opened_of_putsBack hput)).mpr (hroomy _ hput)
    · obtain ⟨s'', hstep', hs', heffect⟩ := hs.1.step hperPage e
      cases hstep.symm.trans hstep'
      refine hroomy fun ⟨p, i, msg⟩ hput => ?_
      rw [Effect, hput] at heffect
      have hroom := (capacity_iff_room hs'.counts).mp hcap
      rw [heffect] at hroom
      exact (room_putBack_iff hs.2 (opened_of_putsBack hput)).mp hroom

/-- One process opens a mailbox with one slot and sends a message to it, another takes the message. -/
def takenRun : List Event :=
  [.initStart 1 1, .initFinish 1 true, .sendStart 1 0, .sendLoaded 1 (some 4), .recvStart 2 0,
    .recvChecked 2 (some 8)]

/-- The copy fails before anything else happens. -/
theorem capacity_iff_returned : 0 < 51 ∧
    Correct (step 51) Capacity mboxInit (takenRun ++ [.recvCopied 2 false]) :=
  ⟨by decide, (capacity_iff (by decide) _).2.mpr (by decide +kernel)⟩

/-- A sender uses the slot before the copy fails. -/
def filledRun : List Event :=
  takenRun ++ [.sendStart 1 0, .sendLoaded 1 (some 4), .recvCopied 2 false]

/-- A mailbox with one slot has two messages. -/
theorem capacity_exceeded : ∃ s, filledRun.foldlM (step 51) mboxInit = .ok s ∧
    (s.mboxes 0).state = .opened ∧ (s.mboxes 0).maxSlots = 1 ∧ (s.mboxes 0).slots = 2 ∧
    (s.mboxes 0).msgs.length = 2 := by
  have hrun : (filledRun.foldlM (step 51) mboxInit).toOption.map (fun s => ((s.mboxes 0).state,
      (s.mboxes 0).maxSlots, (s.mboxes 0).slots, (s.mboxes 0).msgs.length)) =
      some (.opened, 1, 2, 2) := by
    decide +kernel
  obtain ⟨s, hs, hEq⟩ := Option.map_eq_some_iff.mp hrun
  grind [eq_ok_of_toOption]

/-! ### The messages that are received -/

/-- No message was received twice. -/
def Once (s : State) : Prop := (s.received.map fun r => r.1.num).Nodup

/-- And each was taken from the instance it was sent to. -/
def Isolated (s : State) : Prop := Once s ∧ ∀ r ∈ s.received, r.1.inst = r.2

/-- A message that is put back goes to the instance it was sent to. -/
def Returns (perPage : ℕ) (s : State) (e : Event) : Prop :=
  ∀ x ∈ putsBack perPage s e, x.2.2.inst = (s.mboxes x.2.1).inst

instance (perPage : ℕ) (s : State) (e : Event) : Decidable (Returns perPage s e) :=
  inferInstanceAs (Decidable (∀ x ∈ putsBack perPage s e, _))

lemma getMbox_eq (hmap : s'.mboxMap = s.mboxMap) (hget : getMbox perPage s id = some i)
    (hstate : (s'.mboxes i).state = (s.mboxes i).state) : getMbox perPage s' id = some i := by
  grind [getMbox]

/-- A process that receives from a mailbox gets its first message, if its buffer is large enough. -/
lemma receive_first {msgs : List Msg} (hp : s.procs p = .idle)
    (hget : getMbox perPage s id = some i) (hslots : (s.mboxes i).slots ≠ 0)
    (hmsgs : (s.mboxes i).msgs = msg :: msgs)
    (hrun : [.recvStart p id, .recvChecked p (some (msg.bytes + 1)), .recvCopied p true].foldlM
      (step perPage) s = .ok s') : (msg, (s.mboxes i).inst) ∈ s'.received := by
  have hopen := opened_of_getMbox hget
  have hne : getMbox perPage s id ≠ none := by simp [hget]
  obtain ⟨s1, hstart, hrun⟩ := bind_eq_ok_iff.mp hrun
  obtain ⟨s2, hcheck, hrun⟩ := bind_eq_ok_iff.mp hrun
  obtain ⟨s3, hcopy, hend⟩ := bind_eq_ok_iff.mp hrun
  cases hend
  rw [step, if_pos hp, if_neg hne] at hstart
  cases hstart
  have hproc : (s.setPc p (.recvCheck id)).procs p = .recvCheck id := update_self _ _ _
  -- the process takes the message
  have hcheck' : recvTurn (enter ((s.setPc p (.recvCheck id)).setPc p .idle) i) p id i
      (msg.bytes + 1) = .ok s2 := by
    rw [step, hproc] at hcheck
    unfold recvChecked at hcheck
    have hget' : getMbox perPage ((s.setPc p (.recvCheck id)).setPc p .idle) id = some i := hget
    simpa [hget'] using hcheck
  have hmbox : (enter ((s.setPc p (.recvCheck id)).setPc p .idle) i).mboxes i =
      { s.mboxes i with inuse := (s.mboxes i).inuse + 1 } := update_self _ _ _
  rw [recvTurn_take (by rw [hmbox]; exact hopen) (by rw [hmbox]; exact hslots)
    (by rw [hmbox]; exact hmsgs) (Nat.le_succ _)] at hcheck'
  have hproc2 : s2.procs p = .recvCopy id msg (s.mboxes i).inst := by
    rw [← Except.ok.inj hcheck', hmbox]
    exact update_self _ _ _
  rw [step, hproc2] at hcopy
  rw [← Except.ok.inj hcopy]
  simp

/-- The other mailboxes of the page are opened, and the mailbox is freed and opened again while the
receiver copies. The copy fails, and another process receives from the new instance. -/
def reopenedRun : List Event :=
  takenRun ++ List.replicate 50 (.initStart 3 1) ++ [.free 1 0, .initStart 3 1, .recvCopied 2 false,
    .recvStart 3 0, .recvChecked 3 (some 8), .recvCopied 3 true]

end UcoreKernel.Mbox
