import UcoreKernel.Sync.Mbox

/-!
What a mailbox is for, without the processes that sleep: messages move between processes and
mailboxes.

`Move` lists the ways in which they move. Each of them keeps the messages apart (`Placed`): a message
is in one mailbox or with one process, or it has been received, and it has been received once. Each
but `putBack` keeps the bounds of the mailboxes (`Room`), and each but a `putBack` into another
instance keeps every message with its instance (`Same`).
-/

namespace UcoreKernel.Mbox

open Function List

/-- A mailbox, without its wait queues. -/
structure Box where
  state : MboxState
  maxSlots : ℕ
  slots : ℕ
  msgs : List Msg
  inst : ℕ

/-- A message that a process has: one that waits for room in a mailbox, or one that was taken from an
instance of a mailbox and is not received yet. -/
inductive Hold where
  | waiting (mbox : ℕ) (msg : Msg)
  | taken (msg : Msg) (inst : ℕ)

/-- The message. -/
def Hold.msg : Hold → Msg
  | .waiting _ msg => msg
  | .taken msg _ => msg

/-- The mailboxes, what each process holds, and the account. -/
structure Core where
  boxes : ℕ → Box
  held : ℕ → Option Hold
  sent : ℕ
  inits : ℕ
  received : List (Msg × ℕ)

namespace Core

/-- Another value for a mailbox. -/
def setBox (c : Core) (i : ℕ) (b : Box) : Core := { c with boxes := update c.boxes i b }

/-- Another value for what a process holds. -/
def setHeld (c : Core) (p : ℕ) (h : Option Hold) : Core :=
  { c with held := update c.held p h }

/-- No process waits for room in the mailbox. -/
def NoneWaits (c : Core) (i : ℕ) : Prop := ∀ p msg, c.held p ≠ some (.waiting i msg)

/-- A message goes into a mailbox. -/
def deliver (c : Core) (p i : ℕ) (msgs : List Msg) : Core :=
  (c.setBox i { c.boxes i with slots := (c.boxes i).slots + 1, msgs := msgs }).setHeld p none

/-- A message goes back to the front of a mailbox. -/
def putBack (c : Core) (p i : ℕ) (msg : Msg) : Core := c.deliver p i (msg :: (c.boxes i).msgs)

end Core

/-- One move. -/
inductive Move : Core → Core → Prop where
  /-- A mailbox is opened. -/
  | opened {c : Core} (i maxSlots : ℕ) (hclosed : (c.boxes i).state = .closed)
      (hslots : (c.boxes i).slots = 0) (hmsgs : (c.boxes i).msgs = []) (hnone : c.NoneWaits i) :
      Move c { c.setBox i ⟨.opened, maxSlots, 0, [], c.inits⟩ with inits := c.inits + 1 }
  /-- A process makes a message for a mailbox. -/
  | make {c : Core} (p i pid bytes : ℕ) (hp : c.held p = none) :
      Move c { c.setHeld p (some (.waiting i ⟨pid, bytes, c.sent, (c.boxes i).inst⟩)) with
        sent := c.sent + 1 }
  /-- A message goes to the end of its mailbox. -/
  | post {c : Core} (p i : ℕ) (msg : Msg) (hp : c.held p = some (.waiting i msg))
      (hroom : (c.boxes i).slots < (c.boxes i).maxSlots) :
      Move c (c.deliver p i ((c.boxes i).msgs ++ [msg]))
  /-- A message is freed. -/
  | drop {c : Core} (p : ℕ) : Move c (c.setHeld p none)
  /-- A process takes the first message of a mailbox. -/
  | take {c : Core} (p i : ℕ) (msg : Msg) (msgs : List Msg) (hp : c.held p = none)
      (hmsgs : (c.boxes i).msgs = msg :: msgs) :
      Move c ((c.setBox i { c.boxes i with slots := (c.boxes i).slots - 1, msgs := msgs }).setHeld p
        (some (.taken msg (c.boxes i).inst)))
  /-- A message is received. -/
  | receive {c : Core} (p inst : ℕ) (msg : Msg) (hp : c.held p = some (.taken msg inst)) :
      Move c { c.setHeld p none with received := c.received ++ [(msg, inst)] }
  /-- A mailbox is freed. -/
  | close {c : Core} (i : ℕ) :
      Move c (c.setBox i { c.boxes i with state := .closing, msgs := [] })
  /-- Nobody uses the mailbox any more. -/
  | retire {c : Core} (i : ℕ) :
      Move c (c.setBox i { c.boxes i with state := .closed, maxSlots := 0, slots := 0 })

/-- Any number of moves. -/
abbrev Moves : Core → Core → Prop := Relation.ReflTransGen Move

variable {c c' : Core} {p i : ℕ} {msg : Msg}

/-- What one move keeps, any number of them keep. -/
lemma Moves.keeps {P : Core → Prop} (hmove : ∀ c c', Move c c' → P c → P c') (h : Moves c c')
    (hc : P c) : P c' := by
  induction h with
  | refl => exact hc
  | tail _ hlast ih => exact hmove _ _ hlast ih

/-! ### Bounds -/

/-- A mailbox that is open has as many messages as slots in use. -/
def Counts (c : Core) : Prop :=
  ∀ i, (c.boxes i).state = .opened → (c.boxes i).msgs.length = (c.boxes i).slots

/-- A mailbox that is open has no more slots in use than it has slots. -/
def Room (c : Core) : Prop :=
  ∀ i, (c.boxes i).state = .opened → (c.boxes i).slots ≤ (c.boxes i).maxSlots

variable {b : Box}

/-- A property of each mailbox, after one of them has changed. -/
lemma forall_setBox {P : Box → Prop} (h : ∀ j, P (c.boxes j)) (hb : P b) (j : ℕ) :
    P ((c.setBox i b).boxes j) := by
  obtain rfl | hj := eq_or_ne j i
  · simpa [Core.setBox] using hb
  · simpa [Core.setBox, update_of_ne hj] using h j

variable {msgs : List Msg}

lemma counts_deliver (h : Counts c)
    (hmsgs : msgs.length = (c.boxes i).msgs.length + 1) : Counts (c.deliver p i msgs) := by
  refine forall_setBox (P := fun b => b.state = .opened → b.msgs.length = b.slots) h fun hopen => ?_
  show msgs.length = _
  rw [hmsgs, h i hopen]

lemma Move.counts (hmove : Move c c') (h : Counts c) : Counts c' := by
  have hset : ∀ i b, (b.state = .opened → b.msgs.length = b.slots) → Counts (c.setBox i b) :=
    fun i b hb => forall_setBox (P := fun b => b.state = .opened → b.msgs.length = b.slots) h hb
  cases hmove with
  | opened i maxSlots => exact hset i _ fun _ => rfl
  | make | drop | receive => exact h
  | post p i msg => exact counts_deliver h (by simp)
  | take p i msg msgs hp hmsgs =>
    refine hset i _ fun hopen => ?_
    have hlen := h i hopen
    grind
  | close i | retire i => exact hset i _ nofun

lemma Move.room (hmove : Move c c') (h : Room c) : Room c' := by
  have hset : ∀ i b, (b.state = .opened → b.slots ≤ b.maxSlots) → Room (c.setBox i b) :=
    fun i b hb => forall_setBox (P := fun b => b.state = .opened → b.slots ≤ b.maxSlots) h hb
  cases hmove with
  | opened i maxSlots => exact hset i _ fun _ => Nat.zero_le _
  | make | drop | receive => exact h
  | post p i msg hp hroom => exact hset i _ fun _ => hroom
  | take p i msg msgs =>
    refine hset i _ fun hopen => ?_
    have hle := h i hopen
    grind
  | close i | retire i => exact hset i _ nofun

lemma counts_putBack (h : Counts c) : Counts (c.putBack p i msg) :=
  counts_deliver h rfl

/-- A message that is put back keeps the bound exactly if there is room for it. -/
lemma room_putBack_iff (h : Room c) (hopen : (c.boxes i).state = .opened) :
    Room (c.putBack p i msg) ↔ (c.boxes i).slots < (c.boxes i).maxSlots := by
  constructor
  · intro hroom
    have hi := hroom i (by simpa [Core.putBack, Core.deliver, Core.setBox, Core.setHeld] using hopen)
    simpa [Core.putBack, Core.deliver, Core.setBox, Core.setHeld] using hi
  · intro hlt
    exact forall_setBox (P := fun b => b.state = .opened → b.slots ≤ b.maxSlots) h fun _ => hlt

/-! ### Where a message is -/

/-- The places of messages. -/
inductive Place where
  | mbox (i : ℕ)
  | proc (p : ℕ)
  | done

/-- Every message is at its place only. -/
structure Placed (c : Core) (place : ℕ → Place) : Prop where
  mbox : ∀ i, ∀ m ∈ (c.boxes i).msgs, place m.num = .mbox i ∧ m.num < c.sent
  nodup : ∀ i, ((c.boxes i).msgs.map Msg.num).Nodup
  held : ∀ p h, c.held p = some h → place h.msg.num = .proc p ∧ h.msg.num < c.sent
  done : ∀ r ∈ c.received, place r.1.num = .done ∧ r.1.num < c.sent
  once : (c.received.map fun r => r.1.num).Nodup

section Placed

variable {place : ℕ → Place}

/-- Only the message that moves gets another place. -/
lemma update_place_of_ne {n k : ℕ} {x : Place} (h : place k ≠ place n) : update place n x k = place k :=
  update_of_ne (fun hkn => h (congrArg place hkn)) _ _

section

variable (hc : Placed c place)
include hc

variable {h : Hold}

/-- A message that a process has goes into a mailbox. -/
lemma Placed.deliver (hp : c.held p = some h) (hmsgs : msgs.Perm (h.msg :: (c.boxes i).msgs)) :
    Placed (c.deliver p i msgs) (update place h.msg.num (.mbox i)) := by
  obtain ⟨hplace, hlt⟩ := hc.held p h hp
  have hbox : ∀ j, j ≠ i → ((c.deliver p i msgs).boxes j) = c.boxes j := fun j hj => by
    simp [Core.deliver, Core.setBox, Core.setHeld, update_of_ne hj]
  have hself : ((c.deliver p i msgs).boxes i).msgs = msgs := by
    simp [Core.deliver, Core.setBox, Core.setHeld]
  -- no message of a mailbox is the one that moves
  have hkeep : ∀ j, ∀ m ∈ (c.boxes j).msgs,
      update place h.msg.num (.mbox i) m.num = .mbox j := fun j m hm => by
    rw [update_place_of_ne, (hc.mbox j m hm).1]
    rw [(hc.mbox j m hm).1, hplace]
    exact nofun
  constructor
  case mbox =>
    intro j m hm
    obtain rfl | hj := eq_or_ne j i
    · rw [hself, hmsgs.mem_iff, mem_cons] at hm
      obtain rfl | hm := hm
      · exact ⟨update_self _ _ _, hlt⟩
      · exact ⟨hkeep j m hm, (hc.mbox j m hm).2⟩
    · rw [hbox j hj] at hm
      exact ⟨hkeep j m hm, (hc.mbox j m hm).2⟩
  case nodup =>
    intro j
    obtain rfl | hj := eq_or_ne j i
    · rw [hself, (hmsgs.map Msg.num).nodup_iff, map_cons, nodup_cons]
      refine ⟨fun hm => ?_, hc.nodup j⟩
      obtain ⟨m, hm, hnum⟩ := mem_map.mp hm
      have hmbox := (hc.mbox j m hm).1
      rw [hnum, hplace] at hmbox
      cases hmbox
    · rw [hbox j hj]
      exact hc.nodup j
  case held =>
    intro q h' hq
    obtain rfl | hqp := eq_or_ne q p
    · simp [Core.deliver, Core.setHeld] at hq
    · replace hq : c.held q = some h' := by
        simpa [Core.deliver, Core.setHeld, Core.setBox, update_of_ne hqp] using hq
      obtain ⟨hplace', hlt'⟩ := hc.held q h' hq
      refine ⟨?_, hlt'⟩
      grind
  case done =>
    intro r hr
    obtain ⟨hdone, hlt'⟩ := hc.done r hr
    refine ⟨?_, hlt'⟩
    grind
  case once => exact hc.once

/-- Messages go away. -/
lemma Placed.fewer (hboxes : ∀ i, ((c'.boxes i).msgs).Sublist (c.boxes i).msgs)
    (hheld : ∀ p h, c'.held p = some h → c.held p = some h) (hreceived : c'.received = c.received)
    (hsent : c'.sent = c.sent) : Placed c' place where
  mbox := fun i m hm => hsent ▸ hc.mbox i m ((hboxes i).subset hm)
  nodup := fun i => (hc.nodup i).sublist ((hboxes i).map Msg.num)
  held := fun p h hp => hsent ▸ hc.held p h (hheld p h hp)
  done := fun r hr => hsent ▸ hc.done r (hreceived ▸ hr)
  once := hreceived ▸ hc.once

/-- A mailbox with fewer messages. -/
lemma Placed.setBox (hb : b.msgs.Sublist (c.boxes i).msgs) : Placed (c.setBox i b) place := by
  refine hc.fewer (fun j => ?_) (fun _ _ h => h) rfl rfl
  obtain rfl | hj := eq_or_ne j i
  · simpa [Core.setBox] using hb
  · simp [Core.setBox, update_of_ne hj]

/-- A process takes a message out of a mailbox. -/
lemma Placed.take (hp : c.held p = none) (hmsgs : (c.boxes i).msgs = h.msg :: b.msgs) :
    Placed ((c.setBox i b).setHeld p (some h)) (update place h.msg.num (.proc p)) := by
  obtain ⟨hplace, hlt⟩ := hc.mbox i h.msg (by rw [hmsgs]; exact (.head _))
  have hnodup := hc.nodup i
  rw [hmsgs, map_cons, nodup_cons] at hnodup
  constructor
  case mbox =>
    intro j m hm
    obtain rfl | hj := eq_or_ne j i
    · replace hm : m ∈ b.msgs := by simpa [Core.setBox, Core.setHeld] using hm
      obtain ⟨hm', hlt'⟩ := hc.mbox j m (by rw [hmsgs]; exact .tail _ hm)
      -- the numbers of a mailbox are different
      have hne : m.num ≠ h.msg.num := fun hEq => hnodup.1 (hEq ▸ mem_map_of_mem hm)
      exact ⟨by rw [update_of_ne hne, hm'], hlt'⟩
    · replace hm : m ∈ (c.boxes j).msgs := by
        simpa [Core.setBox, Core.setHeld, update_of_ne hj] using hm
      obtain ⟨hm', hlt'⟩ := hc.mbox j m hm
      refine ⟨?_, hlt'⟩
      grind
  case nodup =>
    intro j
    obtain rfl | hj := eq_or_ne j i
    · simpa [Core.setBox, Core.setHeld] using hnodup.2
    · simpa [Core.setBox, Core.setHeld, update_of_ne hj] using hc.nodup j
  case held =>
    intro q h' hq
    obtain rfl | hqp := eq_or_ne q p
    · obtain rfl : h = h' := by simpa [Core.setHeld] using hq
      exact ⟨update_self _ _ _, hlt⟩
    · replace hq : c.held q = some h' := by
        simpa [Core.setBox, Core.setHeld, update_of_ne hqp] using hq
      obtain ⟨hplace', hlt'⟩ := hc.held q h' hq
      refine ⟨?_, hlt'⟩
      grind
  case done =>
    intro r hr
    obtain ⟨hdone, hlt'⟩ := hc.done r hr
    refine ⟨?_, hlt'⟩
    grind
  case once => exact hc.once

/-- A process makes a message. -/
lemma Placed.make (hnum : h.msg.num = c.sent) :
    Placed { c.setHeld p (some h) with sent := c.sent + 1 } (update place c.sent (.proc p)) := by
  have hkeep : ∀ {n : ℕ}, n < c.sent → update place c.sent (.proc p) n = place n :=
    fun hn => update_of_ne hn.ne _ _
  constructor
  case mbox =>
    intro i m hm
    obtain ⟨hplace, hlt⟩ := hc.mbox i m hm
    exact ⟨(hkeep hlt).trans hplace, Nat.lt_succ_of_lt hlt⟩
  case nodup => exact hc.nodup
  case held =>
    intro q h' hq
    obtain rfl | hqp := eq_or_ne q p
    · obtain rfl : h = h' := by simpa [Core.setHeld] using hq
      grind
    · replace hq : c.held q = some h' := by
        simpa [Core.setHeld, update_of_ne hqp] using hq
      obtain ⟨hplace, hlt⟩ := hc.held q h' hq
      exact ⟨(hkeep hlt).trans hplace, Nat.lt_succ_of_lt hlt⟩
  case done =>
    intro r hr
    obtain ⟨hdone, hlt⟩ := hc.done r hr
    exact ⟨(hkeep hlt).trans hdone, Nat.lt_succ_of_lt hlt⟩
  case once => exact hc.once

/-- A message is received. -/
lemma Placed.receive {inst : ℕ} (hp : c.held p = some (.taken msg inst)) :
    Placed { c.setHeld p none with received := c.received ++ [(msg, inst)] }
      (update place msg.num .done) := by
  obtain ⟨hplace, hlt⟩ := hc.held p _ hp
  replace hplace : place msg.num = .proc p := hplace
  constructor
  case mbox =>
    intro i m hm
    obtain ⟨hm', hlt'⟩ := hc.mbox i m hm
    refine ⟨?_, hlt'⟩
    grind
  case nodup => exact hc.nodup
  case held =>
    intro q h' hq
    obtain rfl | hqp := eq_or_ne q p
    · simp [Core.setHeld] at hq
    · replace hq : c.held q = some h' := by
        simpa [Core.setHeld, update_of_ne hqp] using hq
      obtain ⟨hplace', hlt'⟩ := hc.held q h' hq
      refine ⟨?_, hlt'⟩
      grind
  case done =>
    intro r hr
    obtain hr | hr := mem_append.mp hr
    · obtain ⟨hdone, hlt'⟩ := hc.done r hr
      refine ⟨?_, hlt'⟩
      grind
    · rw [mem_singleton.mp hr]
      exact ⟨update_self _ _ _, hlt⟩
  case once =>
    rw [map_append, nodup_append]
    refine ⟨hc.once, nodup_singleton _, ?_⟩
    rintro n hn k hk rfl
    obtain ⟨r, hr, rfl⟩ := mem_map.mp hn
    have hdone := (hc.done r hr).1
    grind

end

/-- The messages stay apart. -/
lemma Move.placed (hmove : Move c c') (hc : Placed c place) : ∃ place', Placed c' place' := by
  cases hmove with
  | opened i maxSlots => exact ⟨place, (hc.setBox (nil_sublist _)).fewer (fun _ => List.Sublist.refl _)
      (fun _ _ h => h) rfl rfl⟩
  | make p i pid bytes hp => exact ⟨_, hc.make rfl⟩
  | post p i msg hp => exact ⟨_, hc.deliver hp (perm_append_singleton _ _)⟩
  | drop p =>
    refine ⟨place, hc.fewer (fun _ => List.Sublist.refl _) (fun q h hq => ?_) rfl rfl⟩
    obtain rfl | hqp := eq_or_ne q p
    · simp [Core.setHeld] at hq
    · simpa [Core.setHeld, update_of_ne hqp] using hq
  | take p i msg msgs hp hmsgs => exact ⟨_, hc.take hp hmsgs⟩
  | receive p inst msg hp => exact ⟨_, hc.receive hp⟩
  | close i => exact ⟨place, hc.setBox (nil_sublist _)⟩
  | retire i => exact ⟨place, hc.setBox (List.Sublist.refl _)⟩

end Placed

/-! ### Instances -/

/-- Every message is with the instance of the mailbox it was sent to. -/
structure Same (c : Core) : Prop where
  mbox : ∀ i, ∀ m ∈ (c.boxes i).msgs, m.inst = (c.boxes i).inst
  waiting : ∀ p i m, c.held p = some (.waiting i m) → m.inst = (c.boxes i).inst
  taken : ∀ p m inst, c.held p = some (.taken m inst) → m.inst = inst
  done : ∀ r ∈ c.received, r.1.inst = r.2

/-- A mailbox changes, and keeps its instance or has nobody waiting. -/
lemma Same.setBox (hc : Same c) (hmsgs : ∀ m ∈ b.msgs, m.inst = b.inst)
    (hinst : b.inst = (c.boxes i).inst ∨ c.NoneWaits i) : Same (c.setBox i b) where
  mbox := forall_setBox (P := fun b => ∀ m ∈ b.msgs, m.inst = b.inst) hc.mbox hmsgs
  waiting := fun p j m hp => by
    obtain rfl | hj := eq_or_ne j i
    · obtain hinst | hnone := hinst
      · simpa [Core.setBox, hinst] using hc.waiting p j m hp
      · exact absurd hp (hnone p m)
    · simpa [Core.setBox, update_of_ne hj] using hc.waiting p j m hp
  taken := hc.taken
  done := hc.done

/-- A process gets another message, or none. -/
lemma Same.setHeld {h : Option Hold} (hc : Same c)
    (hwaiting : ∀ i m, h = some (.waiting i m) → m.inst = (c.boxes i).inst)
    (htaken : ∀ m inst, h = some (.taken m inst) → m.inst = inst) : Same (c.setHeld p h) where
  mbox := hc.mbox
  waiting := fun q i m hq => by
    obtain rfl | hqp := eq_or_ne q p
    · exact hwaiting i m (by simpa [Core.setHeld] using hq)
    · exact hc.waiting q i m (by simpa [Core.setHeld, update_of_ne hqp] using hq)
  taken := fun q m inst hq => by
    obtain rfl | hqp := eq_or_ne q p
    · exact htaken m inst (by simpa [Core.setHeld] using hq)
    · exact hc.taken q m inst (by simpa [Core.setHeld, update_of_ne hqp] using hq)
  done := hc.done

/-- A message of the instance goes into the mailbox. -/
lemma Same.deliver (hc : Same c) (hinst : msg.inst = (c.boxes i).inst)
    (hmsgs : msgs.Perm (msg :: (c.boxes i).msgs)) : Same (c.deliver p i msgs) := by
  have hset : Same (c.setBox i { c.boxes i with slots := (c.boxes i).slots + 1, msgs := msgs }) := by
    refine hc.setBox (fun m hm => ?_) (.inl rfl)
    obtain rfl | hm := mem_cons.mp (hmsgs.mem_iff.mp hm)
    · exact hinst
    · exact hc.mbox i m hm
  exact hset.setHeld nofun nofun

/-- The messages stay with their instances. -/
lemma Move.same (hmove : Move c c') (hc : Same c) : Same c' := by
  cases hmove with
  | opened i maxSlots hclosed hslots hmsgs hnone =>
    have hset : Same (c.setBox i ⟨.opened, maxSlots, 0, [], c.inits⟩) :=
      hc.setBox nofun (.inr hnone)
    exact { hset with }
  | make p i pid bytes hp =>
    have hset : Same (c.setHeld p (some (.waiting i ⟨pid, bytes, c.sent, (c.boxes i).inst⟩))) := by
      refine hc.setHeld (fun j m h => ?_) nofun
      grind
    exact { hset with }
  | post p i msg hp => exact hc.deliver (hc.waiting p i msg hp) (perm_append_singleton _ _)
  | drop p => exact hc.setHeld nofun nofun
  | take p i msg msgs hp hmsgs =>
    have hmem : ∀ m ∈ msg :: msgs, m.inst = (c.boxes i).inst := fun m hm =>
      hc.mbox i m (by rwa [hmsgs])
    have hset : Same (c.setBox i
        { c.boxes i with slots := (c.boxes i).slots - 1, msgs := msgs }) :=
      hc.setBox (fun m hm => hmem m (.tail _ hm)) (.inl rfl)
    refine hset.setHeld nofun fun m inst h => ?_
    grind
  | receive p inst msg hp =>
    have hset : Same (c.setHeld p none) :=
      hc.setHeld nofun nofun
    refine ⟨hset.mbox, hset.waiting, hset.taken, fun r hr => ?_⟩
    obtain hr | hr := mem_append.mp hr
    · exact hc.done r hr
    · rw [mem_singleton.mp hr]
      exact hc.taken p msg inst hp
  | close i => exact hc.setBox nofun (.inl rfl)
  | retire i => exact hc.setBox (hc.mbox i) (.inl rfl)

end UcoreKernel.Mbox
