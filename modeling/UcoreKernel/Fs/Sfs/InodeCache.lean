import UcoreKernel.Fs.Inode
import UcoreKernel.Lib.Guarded

/-!
The inodes of SFS in memory: `sfs_load_inode`, `sfs_dirent_create_inode` and `sfs_reclaim` of
`fs/sfs/sfs_inode.c`, with `inode_ref_dec`, for any number of processes.

A step is one access to the state that processes share, so the steps of processes are interleaved as
finely as possible; a process that does not find the semaphore free waits. What the inode on the disk
says is not looked at here: whether it can be read comes from outside, and it has one link until the
users of the inode change that.
-/

namespace UcoreKernel.SfsInodes

open Inodes Revival Function List

/-- The part of `struct sfs_inode` that is used here, with the two fields of its disk inode. -/
structure Sin where
  ino : ℕ
  nlinks : ℕ
  dirty : Bool

/-- Where a process is: outside of these functions, or in front of a step of one of them. -/
inductive Pc where
  | idle
  | loadLock (ino : ℕ)
  | loadSearch (ino : ℕ)
  | loadRef (node : ℕ)
  | loadCount (node : ℕ)
  | loadRead (ino : ℕ)
  | loadUnlock (node : Option ℕ)
  | createLock (node : ℕ)
  | createLink (node : ℕ)
  | reclaimLock (node : ℕ)
  | reclaimCount (node : ℕ)
  | reclaimWrite (node : ℕ)
  | reclaimFailed
  | reclaimUnlock (node : ℕ)
  | reclaimKill (node : ℕ)
deriving DecidableEq

/-- What a process is doing with inodes. -/
def control : Control Pc where
  act
    | .loadRef n => some (.found, n)
    | .loadCount n => some (.raised, n)
    | .reclaimLock n | .reclaimCount n => some (.waits, n)
    | .reclaimWrite n => some (.last, n)
    | .reclaimUnlock n | .reclaimKill n => some (.dying, n)
    | _ => none
  carry
    | .loadCount n | .loadUnlock (some n) | .createLock n | .createLink n => {n}
    | _ => ∅
  locked
    | .idle | .loadLock _ | .createLock _ | .reclaimLock _ | .reclaimKill _ => false
    | _ => true

/-- The inodes of SFS and the processes. -/
abbrev State := Inodes.State Sin Pc

/-- `lookup_sfs_nolock` up to the inode; the walk looks at every inode of the list. -/
def lookupSfsNolock (s : State) (ino : ℕ) : Except Panic (Option ℕ) :=
  if ∀ n ∈ s.links, (s.nodes n).isSome then
    .ok (s.links.find? fun n => (s.nodes n).any fun i => i.info.ino == ino)
  else .error .freed

/-- `vop_ref_dec` of a reference of the users. -/
def refDec (s : State) (p n : ℕ) : Except Panic State := do
  let (count, s) ← inodeRefDec s n
  return State.setPc { s with held := update s.held n (s.held n - 1) } p
    (if count = 0 then .reclaimLock n else .idle)

/-- The next step of a process; `ok` says whether memory could be allocated, and the disk could be
read or written. -/
def nextStep (s : State) (p : ℕ) (ok : Bool) : Except Panic State :=
  match s.procs p with
  | .idle => .ok s
  | .loadLock ino =>
    if s.sem = none then .ok ({ s with sem := some p }.setPc p (.loadSearch ino)) else .ok s
  | .loadSearch ino => do
      match ← lookupSfsNolock s ino with
      | some n => return s.setPc p (.loadRef n)
      | none => return s.setPc p (.loadRead ino)
  | .loadRef n => do
      let (count, s) ← inodeRefInc s n
      return State.setPc { s with kept := update s.kept n false } p
        (if count = 1 then .loadCount n else .loadUnlock (some n))
  | .loadCount n => do
      let i ← s.node n
      return (s.setNode n { i with reclaimCount := i.reclaimCount + 1 }).setPc p (.loadUnlock (some n))
  | .loadRead ino =>
    if ok then .ok ((allocInode s ⟨ino, 1, false⟩).setPc p (.createLink s.next))
    else .ok (s.setPc p (.loadUnlock none))
  | .loadUnlock node =>
    let s := match node with
      | some n => returnRef s n
      | none => s
    .ok ({ s with sem := none }.setPc p .idle)
  | .createLock n =>
    if s.sem = none then .ok ({ s with sem := some p }.setPc p (.createLink n)) else .ok s
  | .createLink n => .ok ({ s with links := n :: s.links }.setPc p (.loadUnlock (some n)))
  | .reclaimLock n =>
    if s.sem = none then .ok ({ s with sem := some p }.setPc p (.reclaimCount n)) else .ok s
  | .reclaimCount n => do
      let i ← s.node n
      assert .reclaim (0 < i.reclaimCount)
      let s := s.setNode n { i with reclaimCount := i.reclaimCount - 1 }
      if i.reclaimCount - 1 ≠ 0 then return s.setPc p .reclaimFailed
      else do
        assert .reclaim (i.refCount = 0 ∧ i.openCount = 0)
        return s.setPc p (.reclaimWrite n)
  | .reclaimWrite n => do
      let i ← s.node n
      if i.info.nlinks ≠ 0 ∧ i.info.dirty ∧ !ok then
        return State.setPc { s with kept := update s.kept n true } p .reclaimFailed
      else
        let s := s.setNode n { i with info := { i.info with dirty := false } }
        return { s with links := s.links.erase n }.setPc p (.reclaimUnlock n)
  | .reclaimFailed => .ok ({ s with sem := none }.setPc p .idle)
  | .reclaimUnlock n => .ok ({ s with sem := none }.setPc p (.reclaimKill n))
  | .reclaimKill n => do
      let s ← inodeKill s n
      return s.setPc p .idle

/-- A process calls a function, uses an inode that it has, or takes its next step. -/
inductive Event where
  | load (p ino : ℕ)
  | create (p ino : ℕ)
  | refInc (p n : ℕ)
  | refDec (p n : ℕ)
  | openInc (p n : ℕ)
  | openDec (p n : ℕ)
  | change (p n nlinks : ℕ) (dirty : Bool)
  | next (p : ℕ) (ok : Bool)
deriving DecidableEq

/-- One step. The users of an inode use it only while they have a reference, and drop no reference
with which the inode is still open. -/
def step (s : State) : Event → Except Panic State
  | .load p ino => if s.procs p = .idle then .ok (s.setPc p (.loadLock ino)) else .ok s
  | .create p ino =>
    if s.procs p = .idle then
      .ok ((allocInode s ⟨ino, 0, false⟩).setPc p (.createLock s.next))
    else .ok s
  | .refInc p n => if s.procs p = .idle ∧ 0 < s.held n then copyRef s n else .ok s
  | .refDec p n => if s.procs p = .idle ∧ s.opened n < s.held n then refDec s p n else .ok s
  | .openInc p n => if s.procs p = .idle ∧ s.opened n < s.held n then openRef s n else .ok s
  | .openDec p n => if s.procs p = .idle ∧ 0 < s.opened n then closeRef s n else .ok s
  | .change p n nlinks dirty =>
    if s.procs p = .idle ∧ 0 < s.held n then do
      let i ← s.node n
      return s.setNode n { i with info := ⟨i.info.ino, nlinks, dirty⟩ }
    else .ok s
  | .next p ok => nextStep s p ok

/-- The file system after it was mounted. -/
def mounted : State :=
  ⟨fun _ => none, [], none, fun _ => .idle, 0, fun _ => 0, fun _ => 0, fun _ => 0, fun _ => false⟩

/-! ### The invariant -/

/-- The inode that a process has made and not yet put into the lists. -/
def Pc.creating : Pc → Option ℕ
  | .createLock n | .createLink n => some n
  | _ => none

/-- The inodes that are not yet in the lists are with one process each. -/
structure Creating (s : State) : Prop where
  outside : ∀ p n, (s.procs p).creating = some n → n ∉ s.links ∧ n < s.next
  alone : ∀ p q n, (s.procs p).creating = some n → (s.procs q).creating = some n → p = q
  fresh : ∀ n, s.stage n = .fresh → ∃ p, (s.procs p).creating = some n

/-- The invariant. -/
structure Inv (s : State) : Prop where
  inodes : Inodes.Inv control s
  creating : Creating s

variable {s s' : State} {p n : ℕ} {pc pc₀ : Pc} {i : Inode Sin}

namespace Creating

variable (hs : Creating s)
include hs

/-- A process goes on, with the inode that it has made if there is one. -/
lemma setPc (hp : s.procs p = pc₀) (hprocs : s'.procs = update s.procs p pc)
    (hpc : pc.creating = pc₀.creating)
    (hstage : ∀ n, s'.stage n = .fresh → s.stage n = .fresh)
    (hlinks : ∀ n ∈ s'.links, n ∈ s.links) (hnext : s'.next = s.next) : Creating s' := by
  have hsame : ∀ q, (s'.procs q).creating = (s.procs q).creating := fun q => by
    rw [hprocs, update_apply]
    grind
  obtain ⟨hout, halone, hfresh⟩ := hs
  constructor <;> grind

/-- A process puts the inode that it has made into the lists. -/
lemma link (hp : s.procs p = .createLink n) (hpc : pc.creating = none) :
    Creating (State.setPc { s with links := n :: s.links } p pc) := by
  have hn : (s.procs p).creating = some n := by rw [hp]; rfl
  obtain ⟨hout, halone, hfresh⟩ := hs
  constructor
  case fresh =>
    intro m hm
    have hne : m ≠ n := by
      rintro rfl
      grind [State.stage, State.setPc]
    have hst : (State.setPc { s with links := n :: s.links } p pc).stage m = s.stage m :=
      stage_congr rfl (by simp [State.setPc, hne]) Iff.rfl
    obtain ⟨q, hq⟩ := hfresh m (hst ▸ hm)
    exact ⟨q, by grind⟩
  all_goals
    grind [State.setPc]

/-- An inode is made. -/
lemma make (hp : s.procs p = pc₀) (hbelow : ∀ n ∈ s.links, n < s.next) (info : Sin)
    (hpc : pc.creating = some s.next) (hp₀ : pc₀.creating = none) :
    Creating ((allocInode s info).setPc p pc) := by
  obtain ⟨hout, halone, hfresh⟩ := hs
  constructor
  case fresh =>
    intro m hm
    by_cases hnext : m = s.next
    · exact ⟨p, by simp [hnext, hpc]⟩
    have hst : ((allocInode s info).setPc p pc).stage m = s.stage m :=
      stage_congr (update_of_ne hnext _ _) Iff.rfl
        ⟨fun h => lt_of_le_of_ne (Nat.lt_succ_iff.mp h) hnext, Nat.lt_succ_of_lt⟩
    obtain ⟨q, hq⟩ := hfresh m (hst ▸ hm)
    exact ⟨q, by grind⟩
  case outside =>
    intro q m hq
    show m ∉ s.links ∧ m < s.next + 1
    grind
  case alone => grind

end Creating

namespace Inv

lemma links_below (hs : Inv s) : ∀ n ∈ s.links, n < s.next := fun n hn => by
  obtain ⟨i, hi⟩ := hs.inodes.tables.allocated n hn
  exact hs.inodes.tables.below n i hi

variable (hs : Inv s) (hp : s.procs p = pc₀)
include hs hp

/-- The process that has the semaphore, by its place. -/
lemma sem (hlocked : control.locked pc₀ = true) : s.sem = some p := hs.inodes.sem p (hp ▸ hlocked)

/-- A process goes on, and does with inodes what it did before. -/
lemma setPc (hact : control.act pc = control.act pc₀) (hcarry : control.carry pc = control.carry pc₀)
    (hlocked : control.locked pc = control.locked pc₀)
    (hpc : pc.creating = pc₀.creating) : Inv (s.setPc p pc) :=
  ⟨hs.inodes.setPc hp hact hcarry hlocked, hs.creating.setPc hp rfl hpc (fun _ => id) (fun _ => id) rfl⟩

/-- A process waits for the semaphore. -/
lemma down (pc : Pc) (hact : control.act pc = control.act pc₀)
    (hcarry : control.carry pc = control.carry pc₀) (hpc : pc.creating = pc₀.creating) :
    ∃ s', (if s.sem = none then .ok (State.setPc { s with sem := some p } p pc) else .ok s :
      Except Panic State) = .ok s' ∧ Inv s' := by
  refine yields_ite hs fun hsem => ?_
  exact ⟨_, rfl, hs.inodes.down hsem hp hact hcarry, hs.creating.setPc hp rfl hpc (fun _ => id) (fun _ => id) rfl⟩

/-- A process releases the semaphore. -/
lemma up (hlock : control.locked pc₀ = true) (hact : control.act pc = control.act pc₀)
    (hcarry : control.carry pc = control.carry pc₀) (hlocked : control.locked pc = false)
    (hfree : ∀ k m, control.act pc₀ = some (k, m) → ¬k.Locked)
    (hpc : pc.creating = pc₀.creating) : Inv (State.setPc { s with sem := none } p pc) :=
  ⟨hs.inodes.up (hs.sem hp hlock) hp hact hcarry hlocked hfree,
    hs.creating.setPc hp rfl hpc (fun _ => id) (fun _ => id) rfl⟩

end Inv

section

variable (hs : Inv s)
include hs

/-- An inode for which a process waits is in the lists: one that is being made has a reference. -/
lemma Inv.mem_links_of_waits (hact : control.act (s.procs p) = some (.waits, n)) : n ∈ s.links := by
  have hpos := hs.inodes.cache.count_pos hact
  have hin : s.stage n = .fresh ∨ s.stage n = .linked := (hs.inodes.cache.obj n).stage_of_pos hpos
  refine mem_links_of_stage (hin.resolve_left fun hfresh => ?_)
  obtain ⟨q, hq⟩ := hs.creating.fresh n hfresh
  have hcarry : n ∈ control.carry (s.procs q) := by
    cases hpc : s.procs q <;> rw [hpc] at hq <;> cases hq <;> exact Finset.mem_singleton_self n
  exact (hs.inodes.cache.of_waits_fresh hact hfresh).2.2.2.1 q hcarry

variable {ino : ℕ} {ok : Bool}

/-- `sfs_load_inode` in the lists. -/
lemma loadSearch_spec (hp : s.procs p = .loadSearch ino) : Yields (nextStep s p ok) Inv := by
  have hall : ∀ n ∈ s.links, (s.nodes n).isSome := fun n hn => by
    obtain ⟨i, hi⟩ := hs.inodes.tables.allocated n hn
    simp [hi]
  simp only [nextStep, hp, lookupSfsNolock, if_pos hall, ok_bind]
  split
  case h_1 n hfind =>
    exact ⟨_, rfl, hs.inodes.find (hs.sem hp rfl) hp (mem_of_find?_eq_some hfind) rfl rfl rfl,
      hs.creating.setPc hp rfl rfl (fun _ => id) (fun _ => id) rfl⟩
  case h_2 => exact ⟨_, rfl, hs.setPc hp rfl rfl rfl rfl⟩

lemma loadRef_spec (hp : s.procs p = .loadRef n) : Yields (nextStep s p ok) Inv := by
  have hact : control.act (s.procs p) = some (.found, n) := hp ▸ rfl
  obtain ⟨i, hi⟩ := hs.inodes.exists_node hact
  simp only [nextStep, hp, inodeRefInc, State.node, hi, ok_bind, pure_eq_ok, Nat.add_eq_right]
  refine ⟨_, rfl, hs.inodes.take hi hp (Finset.notMem_empty n) ?_ ?_ rfl, hs.creating.setPc hp rfl ?_
    (fun m hm => stage_setNode { i with refCount := i.refCount + 1 } hi (.inr rfl) m ▸ hm) (fun _ => id) rfl⟩ <;>
    split_ifs <;> rfl

lemma loadCount_spec (hp : s.procs p = .loadCount n) : Yields (nextStep s p ok) Inv := by
  have hact : control.act (s.procs p) = some (.raised, n) := hp ▸ rfl
  obtain ⟨i, hi⟩ := hs.inodes.exists_node hact
  have hlinked := mem_links_of_stage ((hs.inodes.cache.obj n).stage_of_pos (hs.inodes.cache.count_pos hact))
  simp only [nextStep, hp, State.node, hi, ok_bind]
  exact ⟨_, rfl, hs.inodes.ticket hi hp rfl rfl rfl, hs.creating.setPc hp rfl rfl
    (fun m hm => stage_setNode _ hi (.inl hlinked) m ▸ hm) (fun _ => id) rfl⟩

lemma loadUnlock_spec {node : Option ℕ} (hp : s.procs p = .loadUnlock node) : Yields (nextStep s p ok) Inv := by
  rw [nextStep, hp]
  cases node with
  | none => exact ⟨_, rfl, hs.up hp rfl rfl rfl rfl (by rintro _ _ ⟨⟩) rfl⟩
  | some n =>
    have hgo : Inodes.Inv control ((returnRef s n).setPc p .idle) := hs.inodes.settle hp rfl rfl rfl rfl rfl
    have hup : Inodes.Inv control (State.setPc { (returnRef s n).setPc p .idle with sem := none } p .idle) :=
      hgo.up (hs.sem hp rfl) (by simp) rfl rfl rfl (by rintro _ _ ⟨⟩)
    exact ⟨_, rfl, by simpa [State.setPc] using hup, hs.creating.setPc hp rfl rfl (fun _ => id) (fun _ => id) rfl⟩

lemma createLink_spec (hp : s.procs p = .createLink n) : Yields (nextStep s p ok) Inv := by
  have hcarry : n ∈ control.carry (s.procs p) := hp ▸ Finset.mem_singleton_self n
  have hout := (hs.creating.outside p n (hp ▸ rfl)).1
  obtain ⟨i, -, -, hstage⟩ := hs.inodes.exists_node_of_carry hcarry
  have hfresh : s.stage n = .fresh := hstage.resolve_right fun h => hout (mem_links_of_stage h)
  rw [nextStep, hp]
  exact ⟨_, rfl, hs.inodes.link hp rfl (hs.sem hp rfl) (Finset.mem_singleton_self n) hfresh rfl rfl,
    hs.creating.link hp rfl⟩

lemma reclaimCount_spec (hp : s.procs p = .reclaimCount n) : Yields (nextStep s p ok) Inv := by
  have hact : control.act (s.procs p) = some (.waits, n) := hp ▸ rfl
  obtain ⟨i, hi⟩ := hs.inodes.exists_node hact
  have hlinked := hs.mem_links_of_waits hact
  obtain ⟨hpos, hlast⟩ := hs.inodes.reclaimCount_pos hi (hs.sem hp rfl) hact hlinked
  have hstage : ∀ m, (s.setNode n { i with reclaimCount := i.reclaimCount - 1 }).stage m = .fresh →
      s.stage m = .fresh := fun m hm => stage_setNode _ hi (.inl hlinked) m ▸ hm
  simp only [nextStep, hp, State.node, hi, assert, if_pos hpos, ok_bind]
  split_ifs with hone hfree
  case neg => exact absurd (hlast (by omega)) hfree
  all_goals
    refine ⟨_, rfl, hs.inodes.give hi hp rfl (hs.sem hp rfl) hlinked ?_ rfl,
      hs.creating.setPc hp rfl rfl hstage (fun _ => id) rfl⟩
  · rw [if_neg (by omega)]
    rfl
  · rw [if_pos (by omega)]
    rfl

lemma reclaimWrite_spec (hp : s.procs p = .reclaimWrite n) : Yields (nextStep s p ok) Inv := by
  have hact : control.act (s.procs p) = some (.last, n) := hp ▸ rfl
  obtain ⟨i, hi⟩ := hs.inodes.exists_node hact
  simp only [nextStep, hp, State.node, hi, ok_bind]
  split_ifs
  · exact ⟨_, rfl, hs.inodes.keep hi hp rfl rfl rfl, hs.creating.setPc hp rfl rfl (fun _ => id) (fun _ => id) rfl⟩
  · have hremove : Inodes.Inv control (State.setPc { s.setNode n
        { i with info := { i.info with dirty := false } } with links := s.links.erase n } p
          (.reclaimUnlock n)) := (hs.inodes.setInfo hi { i.info with dirty := false }).remove hp rfl rfl rfl
    refine ⟨_, rfl, hremove, hs.creating.setPc hp rfl rfl (fun m hm => ?_) (fun m hm => mem_of_mem_erase hm) rfl⟩
    by_cases hmn : m = n
    · -- the inode is not fresh: its last ticket was given back
      subst hmn
      have hdying := (hremove.cache.of_dying (p := p) (n := m) (by simp [State.cache, control])).1
      exact absurd (hdying.symm.trans hm) (by simp)
    · rw [← hm, ← stage_setNode { i with info := { i.info with dirty := false } } hi (.inr rfl) m]
      symm
      exact stage_congr rfl (mem_erase_of_ne hmn) Iff.rfl

lemma reclaimKill_spec (hp : s.procs p = .reclaimKill n) : Yields (nextStep s p ok) Inv := by
  obtain ⟨s', hrun, hs', hkill⟩ := hs.inodes.kill hp (rfl : control.carry .idle = _) (.inl rfl) rfl rfl
  simp only [nextStep, hp, hrun, ok_bind]
  subst hs'
  refine ⟨_, rfl, hkill, hs.creating.setPc hp rfl rfl (fun m hm => ?_) (fun _ => id) rfl⟩
  by_cases hmn : m = n
  · exact absurd hm (stage_ne_fresh (hmn ▸ update_self ..))
  · rw [← hm]
    symm
    exact stage_congr (update_of_ne hmn _ _) Iff.rfl Iff.rfl

lemma loadRead_spec (hp : s.procs p = .loadRead ino) : Yields (nextStep s p ok) Inv := by
  rw [nextStep, hp]
  cases ok with
  | false => exact ⟨_, rfl, hs.setPc hp rfl rfl rfl rfl⟩
  | true => exact ⟨_, rfl, hs.inodes.make hp _ (fun _ => hs.sem hp rfl) rfl rfl rfl,
      hs.creating.make hp hs.links_below _ rfl rfl⟩

/-- The next step of a process does not fail. -/
lemma nextStep_spec (p : ℕ) (ok : Bool) : Yields (nextStep s p ok) Inv := by
  cases hp : s.procs p with
  | idle => exact ⟨s, by rw [nextStep, hp], hs⟩
  | loadLock ino =>
    rw [nextStep, hp]
    exact hs.down hp (.loadSearch ino) rfl rfl rfl
  | loadSearch ino => exact loadSearch_spec hs hp
  | loadRef n => exact loadRef_spec hs hp
  | loadCount n => exact loadCount_spec hs hp
  | loadRead ino => exact loadRead_spec hs hp
  | loadUnlock node => exact loadUnlock_spec hs hp
  | createLock n =>
    rw [nextStep, hp]
    exact hs.down hp (.createLink n) rfl rfl rfl
  | createLink n => exact createLink_spec hs hp
  | reclaimLock n =>
    rw [nextStep, hp]
    exact hs.down hp (.reclaimCount n) rfl rfl rfl
  | reclaimCount n => exact reclaimCount_spec hs hp
  | reclaimWrite n => exact reclaimWrite_spec hs hp
  | reclaimFailed =>
    rw [nextStep, hp]
    exact ⟨_, rfl, hs.up hp rfl rfl rfl rfl (by rintro _ _ ⟨⟩) rfl⟩
  | reclaimUnlock n =>
    rw [nextStep, hp]
    exact ⟨_, rfl, hs.up hp rfl rfl rfl rfl (by rintro _ _ ⟨⟩; exact id) rfl⟩
  | reclaimKill n => exact reclaimKill_spec hs hp

lemma refDec_spec (hp : s.procs p = .idle) (hheld : s.opened n < s.held n) : Yields (refDec s p n) Inv := by
  obtain ⟨i, hi, hle⟩ := hs.inodes.exists_node_of_held (Nat.zero_lt_of_lt hheld)
  have hpos := Nat.zero_lt_of_lt (hheld.trans_le hle)
  simp only [refDec, inodeRefDec_eq hi hpos, ok_bind, sub_one_eq_zero hpos]
  refine ⟨_, rfl, hs.inodes.drop hi hp ?_ hheld ?_ ?_ rfl, hs.creating.setPc hp rfl ?_
    (fun m hm => stage_setNode { i with refCount := i.refCount - 1 } hi (.inr rfl) m ▸ hm) (fun _ => id) rfl⟩ <;>
    split_ifs <;> rfl

variable {x : Except Panic State}

/-- The users of an inode do something with it. -/
lemma Inv.of_same (hx : ∃ s', x = .ok s' ∧ Inodes.Inv control s' ∧ Same s s') : Yields x Inv := by
  obtain ⟨s', hx, hinodes, hsame⟩ := hx
  have hprocs : s'.procs = update s.procs 0 (s.procs 0) := by
    rw [update_eq_self, hsame.procs]
  exact ⟨s', hx, hinodes, hs.creating.setPc rfl hprocs rfl (fun n h => hsame.stage n ▸ h)
    (fun n h => hsame.links ▸ h) hsame.next⟩

lemma Inv.of_same_info (hx : ∃ s', x = .ok s' ∧ Inodes.Inv control s' ∧ SameInfo s s') : Yields x Inv := by
  obtain ⟨s', hx, hinodes, hsame⟩ := hx
  exact hs.of_same ⟨s', hx, hinodes, hsame.toSame⟩

/-- No step fails, and each keeps the invariant. -/
lemma step_spec (e : Event) : Yields (step s e) Inv := by
  have hact : ∀ p, s.procs p = .idle → control.act (s.procs p) = none := fun p hp => hp ▸ rfl
  cases e with
  | next p ok => exact nextStep_spec hs p ok
  | change p n nlinks dirty =>
    refine yields_ite hs fun hp => ?_
    obtain ⟨i, hi, -⟩ := hs.inodes.exists_node_of_held hp.2
    simp only [State.node, hi, ok_bind]
    exact hs.of_same ⟨_, rfl, hs.inodes.setInfo hi ⟨i.info.ino, nlinks, dirty⟩, rfl, rfl, rfl,
      stage_setNode _ hi (.inr rfl)⟩
  | load p ino =>
    exact yields_ite hs fun hp => ⟨_, rfl, hs.setPc hp rfl rfl rfl rfl⟩
  | create p ino =>
    exact yields_ite hs fun hp => ⟨_, rfl, hs.inodes.make hp _ (by rintro ⟨⟩) rfl rfl rfl,
      hs.creating.make hp hs.links_below _ rfl rfl⟩
  | refInc p n =>
    exact yields_ite hs fun hp => hs.of_same_info (hs.inodes.copyRef_spec (hact p hp.1) hp.2)
  | refDec p n =>
    exact yields_ite hs fun hp => refDec_spec hs hp.1 hp.2
  | openInc p n =>
    exact yields_ite hs fun hp => hs.of_same_info (hs.inodes.openRef_spec (hact p hp.1) hp.2)
  | openDec p n =>
    exact yields_ite hs fun hp => hs.of_same_info (hs.inodes.closeRef_spec (hact p hp.1) hp.2)

end

lemma inv_mounted : Inv mounted :=
  ⟨inv_empty rfl rfl rfl, nofun, nofun, fun _ h => absurd h (stage_ne_fresh rfl)⟩

end UcoreKernel.SfsInodes
