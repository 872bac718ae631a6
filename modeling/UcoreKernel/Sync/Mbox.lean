import UcoreKernel.Lib.Except

/-!
Mailboxes: `sync/mbox.c`.

The kernel is not preempted, so the steps are the sections between two places where a process can
lose the processor: `down` and the locks of address spaces, the allocation of memory, the copies from
and to user memory, and `schedule`. A process that sleeps in a wait queue can be woken through the
queue, and by its timer or a kill at any time; in the second case the flags of its `wait_t` still say
`WT_INTERRUPTED`.

Three fields keep an account and are read by no function of the source: each message has a number and
the instance of the mailbox it was sent to, each mailbox has the number of its present instance, and
`received` lists the messages that were received, with the instance they were taken from.
-/

namespace UcoreKernel.Mbox

open Function

/-- `struct msg_msg`, without the data; `num` and `inst` are the account. -/
structure Msg where
  pid : ℕ
  bytes : ℕ
  num : ℕ
  inst : ℕ
deriving DecidableEq, Repr

/-- `enum mbox_state`. -/
inductive MboxState where
  | closed
  | opened
  | closing
deriving DecidableEq, Repr

/-- The two wait queues of a mailbox. -/
inductive Side where
  | senders
  | receivers
deriving DecidableEq, Repr

/-- `wakeup_flags`: `WT_INTERRUPTED`, or the flags of the queue, `WT_MBOX_SEND` or `WT_MBOX_RECV`. -/
inductive WakeupFlags where
  | interrupted
  | mbox
deriving DecidableEq, Repr

/-- `struct msg_mbox`; `inst` is the account. -/
structure MsgMbox where
  inuse : ℕ
  state : MboxState
  maxSlots : ℕ
  slots : ℕ
  msgs : List Msg
  queue : Side → List ℕ
  inst : ℕ

/-- Where a process is: outside of this file, or in front of a section of it, with its local
variables. -/
inductive Pc where
  | idle
  | initAlloc (maxSlots page : ℕ)
  | sendLoad (id : ℤ)
  | sendWait (mbox : ℕ) (msg : Msg) (flags : WakeupFlags)
  | recvCheck (id : ℤ)
  | recvWait (id : ℤ) (mbox size : ℕ) (flags : WakeupFlags)
  | recvCopy (id : ℤ) (msg : Msg) (inst : ℕ)
deriving DecidableEq, Repr

/-- The state. `mboxMap` says which pages of mailboxes there are, `semMboxMap` whether the semaphore
is taken; the last three fields are the account. -/
structure State where
  mboxMap : ℕ → Bool
  mboxes : ℕ → MsgMbox
  freeMboxList : List ℕ
  semMboxMap : Bool
  procs : ℕ → Pc
  sent : ℕ
  inits : ℕ
  received : List (Msg × ℕ)

/-- The functions whose assertions can fail. -/
inductive Panic where
  | mboxFree
  | addMsg
  | pickMsg
  | newMbox
  | sendMsg
  | recvMsg
deriving DecidableEq, Repr

/-- `assert`. -/
def assert (panic : Panic) (p : Prop) [Decidable p] : Except Panic Unit :=
  if p then .ok () else .error panic

/-- `MAX_MBOX_NUM`. -/
def maxMboxNum : ℕ := 8192

/-- `MAX_MSG_SLOTS`. -/
def maxMsgSlots : ℕ := 0x1000

/-- `MAX_MSG_BYTES`. -/
def maxMsgBytes : ℕ := 0x10000

/-- Another value for a mailbox. -/
def State.setMbox (s : State) (i : ℕ) (m : MsgMbox) : State :=
  { s with mboxes := update s.mboxes i m }

/-- Another place for a process. -/
def State.setPc (s : State) (p : ℕ) (pc : Pc) : State :=
  { s with procs := update s.procs p pc }

/-! ### Wait queues -/

/-- A process that waits gets other flags. -/
def Pc.wake (flags : WakeupFlags) : Pc → Pc
  | .sendWait mbox msg _ => .sendWait mbox msg flags
  | .recvWait id mbox size _ => .recvWait id mbox size flags
  | pc => pc

/-- Another value for a queue. -/
def MsgMbox.setQueue (m : MsgMbox) (side : Side) (q : List ℕ) : MsgMbox :=
  { m with queue := update m.queue side q }

/-- `wakeup_first`, with `del`. -/
def wakeupFirst (s : State) (i : ℕ) (side : Side) (flags : WakeupFlags) : State :=
  match (s.mboxes i).queue side with
  | [] => s
  | p :: rest =>
    (s.setMbox i ((s.mboxes i).setQueue side rest)).setPc p ((s.procs p).wake flags)

/-- `wakeup_queue`, with `del`: the first of the queue until there is none. -/
def wakeupQueue (s : State) (i : ℕ) (side : Side) (flags : WakeupFlags) : State :=
  ((s.mboxes i).queue side).foldl (fun s _ => wakeupFirst s i side flags) s

/-- `wait_current_set` for `p`, which goes to sleep at `pc`. -/
def waitCurrentSet (s : State) (i : ℕ) (side : Side) (p : ℕ) (pc : Pc) : State :=
  (s.setMbox i ((s.mboxes i).setQueue side ((s.mboxes i).queue side ++ [p]))).setPc p pc

/-- `wait_current_del`. -/
def waitCurrentDel (s : State) (i : ℕ) (side : Side) (p : ℕ) : State :=
  s.setMbox i ((s.mboxes i).setQueue side (((s.mboxes i).queue side).erase p))

/-! ### Mailboxes -/

section

variable (perPage : ℕ)

/-- `MAX_MBOX_PAGES`, when a page has `perPage` mailboxes. -/
def maxMboxPages : ℕ := (maxMboxNum + perPage - 1) / perPage

/-- `get_mbox`. -/
def getMbox (s : State) (id : ℤ) : Option ℕ :=
  if 0 ≤ id ∧ id < maxMboxNum then
    if s.mboxMap (id.toNat / perPage) ∧ (s.mboxes id.toNat).state = .opened then some id.toNat
    else none
  else none

/-- `mbox_free`. -/
def mboxFree (s : State) (i : ℕ) : Except Panic State := do
  let m := s.mboxes i
  assert .mboxFree (m.state = .closing ∧ m.inuse = 0)
  assert .mboxFree (m.msgs = [])
  assert .mboxFree (m.queue .senders = [])
  assert .mboxFree (m.queue .receivers = [])
  return { s.setMbox i { m with state := .closed, maxSlots := 0, slots := 0 } with
    freeMboxList := s.freeMboxList ++ [i] }

/-- `add_msg`. -/
def addMsg (s : State) (i : ℕ) (msg : Msg) (append : Bool) : Except Panic State := do
  let m := s.mboxes i
  assert .addMsg (m.state = .opened)
  let msgs := if append then m.msgs ++ [msg] else msg :: m.msgs
  return wakeupFirst (s.setMbox i { m with slots := m.slots + 1, msgs := msgs }) i .receivers .mbox

/-- `pick_msg`; `none` stands for `-E_TOO_BIG`. -/
def pickMsg (s : State) (i maxBytes : ℕ) : Except Panic (Option Msg × State) := do
  let m := s.mboxes i
  assert .pickMsg (m.state = .opened ∧ 0 < m.slots)
  match m.msgs with
  | [] => .error .pickMsg
  | msg :: msgs =>
    if maxBytes < msg.bytes then return (none, s)
    else return (some msg,
      wakeupFirst (s.setMbox i { m with slots := m.slots - 1, msgs := msgs }) i .senders .mbox)

/-- A mailbox of a new page. -/
def freshMbox : MsgMbox := ⟨0, .closed, 0, 0, [], fun _ => [], 0⟩

/-- The loop of `new_mbox` over the mailboxes of the new page `j`. -/
def addPage (s : State) (j : ℕ) : State :=
  { s with
    mboxMap := update s.mboxMap j true
    mboxes := fun i => if i / perPage = j then freshMbox else s.mboxes i
    freeMboxList := s.freeMboxList ++ (List.range perPage).map (j * perPage + ·) }

/-- The last part of `new_mbox`: the first free mailbox is opened. -/
def openMbox (s : State) (maxSlots : ℕ) : Except Panic State :=
  match s.freeMboxList with
  | [] => .error .newMbox
  | i :: rest => .ok { s.setMbox i { s.mboxes i with
        state := .opened, maxSlots := maxSlots, inst := s.inits } with
      freeMboxList := rest
      inits := s.inits + 1 }

/-- `ipc_mbox_init` up to the call of `alloc_page`, if there is one. -/
def initStart (s : State) (p maxSlots : ℕ) : Except Panic State :=
  if maxSlots = 0 ∨ maxSlots > maxMsgSlots then .ok s
  else if s.semMboxMap then .ok s
  else if s.freeMboxList = [] then
    match (List.range (maxMboxPages perPage)).find? fun j => !s.mboxMap j with
    | none => .ok s
    | some j => .ok { s.setPc p (.initAlloc maxSlots j) with semMboxMap := true }
  else openMbox s maxSlots

/-- `ipc_mbox_init` from the call of `alloc_page` on; `page` says whether there was a page. -/
def initFinish (s : State) (p maxSlots j : ℕ) (page : Bool) : Except Panic State :=
  let s := { s.setPc p .idle with semMboxMap := false }
  if page then openMbox (addPage perPage s j) maxSlots
  else if s.freeMboxList = [] then .ok s
  else openMbox s maxSlots

/-- The part of `send_msg` and `recv_msg` behind `out`; `ok` says whether `ret` is 0. -/
def leave (s : State) (i : ℕ) (ok : Bool) (panic : Panic) : Except Panic State :=
  let m := { s.mboxes i with inuse := (s.mboxes i).inuse - 1 }
  let s := s.setMbox i m
  if m.state ≠ .opened then do
    assert panic (ok = false ∧ m.state = .closing)
    if m.inuse = 0 then mboxFree s i else return s
  else .ok s

/-- `mbox->inuse ++`. -/
def enter (s : State) (i : ℕ) : State :=
  s.setMbox i { s.mboxes i with inuse := (s.mboxes i).inuse + 1 }

/-- The loop of `send_msg` up to its end or to the next sleep. -/
def sendTurn (s : State) (p i : ℕ) (msg : Msg) : Except Panic State :=
  let m := s.mboxes i
  if m.maxSlots ≤ m.slots then do
    assert .sendMsg (m.state = .opened)
    return waitCurrentSet s i .senders p (.sendWait i msg .interrupted)
  else do
    assert .sendMsg (m.state = .opened)
    let s ← addMsg s i msg true
    leave s i true .sendMsg

/-- `send_msg` behind `schedule`. -/
def sendResume (s : State) (p i : ℕ) (msg : Msg) (flags : WakeupFlags) : Except Panic State :=
  let s := waitCurrentDel (s.setPc p .idle) i .senders p
  if (s.mboxes i).state ≠ .opened ∨ flags ≠ .mbox then leave s i false .sendMsg
  else sendTurn s p i msg

/-- `ipc_mbox_send` behind the load of the message; `bytes` is its length, if it could be loaded. -/
def sendLoaded (s : State) (p : ℕ) (id : ℤ) (bytes : Option ℕ) : Except Panic State :=
  let s := s.setPc p .idle
  match bytes with
  | none => .ok s
  | some bytes =>
    if 0 < bytes ∧ bytes ≤ maxMsgBytes then
      match getMbox perPage s id with
      | none => .ok s
      | some i =>
        let msg : Msg := ⟨p, bytes, s.sent, (s.mboxes i).inst⟩
        sendTurn (enter { s with sent := s.sent + 1 } i) p i msg
    else .ok s

/-- The loop of `recv_msg` up to its end or to the next sleep. -/
def recvTurn (s : State) (p : ℕ) (id : ℤ) (i size : ℕ) : Except Panic State :=
  let m := s.mboxes i
  if m.slots = 0 then do
    assert .recvMsg (m.state = .opened)
    return waitCurrentSet s i .receivers p (.recvWait id i size .interrupted)
  else do
    assert .recvMsg (m.state = .opened)
    assert .recvMsg (m.msgs ≠ [])
    let r ← pickMsg s i size
    match r with
    | (none, s) => leave (wakeupFirst s i .receivers .mbox) i false .recvMsg
    | (some msg, s) => do
        let s ← leave s i true .recvMsg
        return s.setPc p (.recvCopy id msg m.inst)

/-- `recv_msg` behind `schedule`. -/
def recvResume (s : State) (p : ℕ) (id : ℤ) (i size : ℕ) (flags : WakeupFlags) : Except Panic State :=
  let s := waitCurrentDel (s.setPc p .idle) i .receivers p
  if (s.mboxes i).state ≠ .opened ∨ flags ≠ .mbox then leave s i false .recvMsg
  else recvTurn s p id i size

/-- `ipc_mbox_recv` behind the check of the buffer; `size` is its size, if the check succeeded. -/
def recvChecked (s : State) (p : ℕ) (id : ℤ) (size : Option ℕ) : Except Panic State :=
  let s := s.setPc p .idle
  match size with
  | none => .ok s
  | some size =>
    if 0 < size then
      match getMbox perPage s id with
      | none => .ok s
      | some i => recvTurn (enter s i) p id i size
    else .ok s

/-- `ipc_mbox_recv` behind the copy of the message; `ok` says whether it succeeded. -/
def recvCopied (s : State) (p : ℕ) (id : ℤ) (msg : Msg) (inst : ℕ) (ok : Bool) : Except Panic State :=
  let s := s.setPc p .idle
  if ok then .ok { s with received := s.received ++ [(msg, inst)] }
  else
    match getMbox perPage s id with
    | none => .ok s
    | some i => addMsg s i msg false

/-- `ipc_mbox_free`. -/
def ipcMboxFree (s : State) (id : ℤ) : Except Panic State :=
  match getMbox perPage s id with
  | none => .ok s
  | some i =>
    let s := s.setMbox i { s.mboxes i with state := .closing, msgs := [] }
    let s := wakeupQueue (wakeupQueue s i .senders .interrupted) i .receivers .interrupted
    if (s.mboxes i).inuse = 0 then mboxFree s i else .ok s

/-! ### Sections -/

/-- A section of a process, with what comes from outside of this file: the arguments of a call, and
how the allocation, the copy or the sleep in front of the section has ended. -/
inductive Event where
  | initStart (p maxSlots : ℕ)
  | initFinish (p : ℕ) (page : Bool)
  | sendStart (p : ℕ) (id : ℤ)
  | sendLoaded (p : ℕ) (bytes : Option ℕ)
  | recvStart (p : ℕ) (id : ℤ)
  | recvChecked (p : ℕ) (size : Option ℕ)
  | recvCopied (p : ℕ) (ok : Bool)
  | resume (p : ℕ)
  | free (p : ℕ) (id : ℤ)
deriving DecidableEq, Repr

/-- One section; a process takes the sections of a call in their order. -/
def step (s : State) : Event → Except Panic State
  | .initStart p maxSlots => if s.procs p = .idle then initStart perPage s p maxSlots else .ok s
  | .initFinish p page =>
    match s.procs p with
    | .initAlloc maxSlots j => initFinish perPage s p maxSlots j page
    | _ => .ok s
  | .sendStart p id =>
    if s.procs p = .idle then
      .ok (if getMbox perPage s id = none then s else s.setPc p (.sendLoad id))
    else .ok s
  | .sendLoaded p bytes =>
    match s.procs p with
    | .sendLoad id => sendLoaded perPage s p id bytes
    | _ => .ok s
  | .recvStart p id =>
    if s.procs p = .idle then
      .ok (if getMbox perPage s id = none then s else s.setPc p (.recvCheck id))
    else .ok s
  | .recvChecked p size =>
    match s.procs p with
    | .recvCheck id => recvChecked perPage s p id size
    | _ => .ok s
  | .recvCopied p ok =>
    match s.procs p with
    | .recvCopy id msg inst => recvCopied perPage s p id msg inst ok
    | _ => .ok s
  | .resume p =>
    match s.procs p with
    | .sendWait i msg flags => sendResume s p i msg flags
    | .recvWait id i size flags => recvResume s p id i size flags
    | _ => .ok s
  | .free p id => if s.procs p = .idle then ipcMboxFree perPage s id else .ok s

/-- `mbox_init`, before any process has called a function of this file. -/
def mboxInit : State := ⟨fun _ => false, fun _ => freshMbox, [], false, fun _ => .idle, 0, 0, []⟩

end

end UcoreKernel.Mbox
