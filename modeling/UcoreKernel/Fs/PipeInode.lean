import UcoreKernel.Fs.Inode
import UcoreKernel.Lib.Guarded

/-!
The inodes of pipes: `lookup_pipe_nolock`, `pipe_root_lookup` and `pipe_root_create` of
`fs/pipe/pipe_root.c`, `pipe_inode_reclaim` of `fs/pipe/pipe_inode.c`, with `inode_ref_dec`, for any
number of processes.

A step is one access to the state that processes share. A lookup walks the whole list and takes a
reference to the reading and to the writing end of the name; it returns one and drops the other. An
inode without a name is in no list, and is freed without the semaphore. A process that drops the last
reference to an end while it has the semaphore, as `pipe_root_create` does for an end that exists,
waits for itself (`Pc.stuck`).
-/

namespace UcoreKernel.PipeInodes

open Inodes Revival Function List State

/-- The part of `struct pipe_inode` that is used here; `readonly` stands for `pin_type`. -/
structure Pin where
  name : Option String
  readonly : Bool
deriving DecidableEq

/-- The functions that walk the list. -/
inductive Call where
  | lookup
  | create (excl : Bool)
deriving DecidableEq

/-- A walk: the function, the name and the end it asks for, and what it has found. `*rnode_store` is
`store true`. -/
structure Walk where
  call : Call
  name : String
  readonly : Bool
  store : Bool → Option ℕ

/-- Where a process is: outside of these functions, or in front of a step of one of them. `ret` is
the inode that the function returns, `other` the other end. -/
inductive Pc where
  | idle
  | walkLock (w : Walk)
  | walk (w : Walk) (todo : List ℕ)
  | walkRef (w : Walk) (n : ℕ) (todo : List ℕ)
  | walkCount (w : Walk) (n : ℕ) (todo : List ℕ)
  | found (w : Walk)
  | unlock (ret other : Option ℕ)
  | dropOther (ret other : Option ℕ)
  | stuck (n : ℕ) (other : Option ℕ)
  | reclaim (n : ℕ) (ret : Option ℕ)
  | reclaimCount (n : ℕ) (ret : Option ℕ)
  | reclaimRemove (n : ℕ) (ret : Option ℕ)
  | reclaimBusy (ret : Option ℕ)
  | reclaimUnlock (n : ℕ) (ret : Option ℕ)
  | reclaimKill (n : ℕ) (ret : Option ℕ)
  | finish (ret : Option ℕ)

/-- The inodes that a walk has found. -/
def Walk.nodes (w : Walk) : Finset ℕ := (w.store true).toFinset ∪ (w.store false).toFinset

/-- What a process is doing with inodes. -/
def control : Control Pc where
  act
    | .walkRef _ n _ => some (.found, n)
    | .walkCount _ n _ => some (.raised, n)
    | .stuck n _ | .reclaim n _ | .reclaimCount n _ => some (.waits, n)
    | .reclaimRemove n _ => some (.last, n)
    | .reclaimUnlock n _ | .reclaimKill n _ => some (.dying, n)
    | _ => none
  carry
    | .walk w _ | .walkRef w _ _ | .walkCount w _ _ | .found w => w.nodes
    | .unlock ret other | .dropOther ret other => ret.toFinset ∪ other.toFinset
    | .stuck _ other => other.toFinset
    | .reclaim _ ret | .reclaimCount _ ret | .reclaimRemove _ ret | .reclaimBusy ret
    | .reclaimUnlock _ ret | .reclaimKill _ ret | .finish ret => ret.toFinset
    | .idle | .walkLock _ => ∅
  locked
    | .idle | .walkLock _ | .dropOther _ _ | .stuck _ _ | .reclaim _ _ | .reclaimKill _ _ | .finish _ =>
      false
    | _ => true

/-- The inodes of pipes and the processes. -/
abbrev State := Inodes.State Pin Pc

/-- `vop_ref_dec` of the process's own reference: `stop` is where it goes if it was the last one,
`next` where it goes otherwise. -/
def dropOwn (s : State) (p n : ℕ) (stop next : Pc) : Except Panic State := do
  let (count, s) ← inodeRefDec s n
  return s.setPc p (if count = 0 then stop else next)

/-- `vop_ref_dec` of a reference of the users. -/
def refDec (s : State) (p n : ℕ) : Except Panic State := do
  let (count, s) ← inodeRefDec s n
  return State.setPc { s with held := update s.held n (s.held n - 1) } p
    (if count = 0 then .reclaim n none else .idle)

/-- `pipe_root_lookup` and `pipe_root_create` behind the walk; `ok` says whether memory could be
allocated. -/
def afterWalk (s : State) (p : ℕ) (w : Walk) (ok : Bool) : Except Panic State :=
  let other := w.store !w.readonly
  match w.call, w.store w.readonly with
  | .lookup, node => .ok (s.setPc p (.unlock node other))
  | .create excl, some n =>
    if excl then dropOwn s p n (.stuck n other) (.unlock none other)
    else .ok (s.setPc p (.unlock (some n) other))
  | .create _, none =>
    if ok then
      let node := s.next
      let s := allocInode s ⟨some w.name, w.readonly⟩
      .ok ({ s with links := node :: s.links }.setPc p (.unlock (some node) other))
    else .ok (s.setPc p (.unlock none other))

/-- The next step of a process. -/
def nextStep (s : State) (p : ℕ) (ok : Bool) : Except Panic State :=
  match s.procs p with
  | .idle | .stuck _ _ => .ok s
  | .walkLock w =>
    if s.sem = none then .ok ({ s with sem := some p }.setPc p (.walk w s.links)) else .ok s
  | .walk w [] => .ok (s.setPc p (.found w))
  | .walk w (n :: todo) => do
      let i ← s.node n
      if i.info.name = some w.name then do
        assert .lookup (w.store i.info.readonly = none)
        return s.setPc p (.walkRef w n todo)
      else return s.setPc p (.walk w todo)
  | .walkRef w n todo => do
      let i ← s.node n
      let w := { w with store := update w.store i.info.readonly (some n) }
      let (count, s) ← inodeRefInc s n
      return State.setPc { s with kept := update s.kept n false } p
        (if count = 1 then .walkCount w n todo else .walk w todo)
  | .walkCount w n todo => do
      let i ← s.node n
      return (s.setNode n { i with reclaimCount := i.reclaimCount + 1 }).setPc p (.walk w todo)
  | .found w => afterWalk s p w ok
  | .unlock ret other => .ok ({ s with sem := none }.setPc p (.dropOther ret other))
  | .dropOther ret none => .ok (s.setPc p (.finish ret))
  | .dropOther ret (some n) => dropOwn s p n (.reclaim n ret) (.finish ret)
  | .reclaim n ret => do
      let i ← s.node n
      if i.info.name = none then do
        let s ← inodeKill s n
        return s.setPc p (.finish ret)
      else if s.sem = none then return { s with sem := some p }.setPc p (.reclaimCount n ret)
      else return s
  | .reclaimCount n ret => do
      let i ← s.node n
      assert .reclaim (0 < i.reclaimCount)
      let s := s.setNode n { i with reclaimCount := i.reclaimCount - 1 }
      if i.reclaimCount - 1 ≠ 0 ∨ i.refCount ≠ 0 then return s.setPc p (.reclaimBusy ret)
      else return s.setPc p (.reclaimRemove n ret)
  | .reclaimRemove n ret => .ok ({ s with links := s.links.erase n }.setPc p (.reclaimUnlock n ret))
  | .reclaimBusy ret => .ok ({ s with sem := none }.setPc p (.finish ret))
  | .reclaimUnlock n ret => .ok ({ s with sem := none }.setPc p (.reclaimKill n ret))
  | .reclaimKill n ret => do
      let s ← inodeKill s n
      return s.setPc p (.finish ret)
  | .finish ret =>
    let s := match ret with
      | some n => returnRef s n
      | none => s
    .ok (s.setPc p .idle)

/-- A process calls a function, uses an inode that it has, or takes its next step. -/
inductive Event where
  | lookup (p : ℕ) (name : String) (readonly : Bool)
  | create (p : ℕ) (name : String) (readonly excl : Bool)
  | pipe (p : ℕ) (readonly : Bool)
  | refInc (p n : ℕ)
  | refDec (p n : ℕ)
  | openInc (p n : ℕ)
  | openDec (p n : ℕ)
  | next (p : ℕ) (ok : Bool)
deriving DecidableEq

/-- The process is outside of these functions. -/
def Pc.isIdle : Pc → Bool
  | .idle => true
  | _ => false

/-- One step. The users of an inode use it only while they have a reference, and drop no reference
with which the inode is still open; `pipe` makes one of the inodes of `pipe_open`. -/
def step (s : State) : Event → Except Panic State
  | .lookup p name readonly =>
    if (s.procs p).isIdle then .ok (s.setPc p (.walkLock ⟨.lookup, name, readonly, fun _ => none⟩))
    else .ok s
  | .create p name readonly excl =>
    if (s.procs p).isIdle then
      .ok (s.setPc p (.walkLock ⟨.create excl, name, readonly, fun _ => none⟩))
    else .ok s
  | .pipe p readonly =>
    if (s.procs p).isIdle then
      .ok ((allocInode s ⟨none, readonly⟩).setPc p (.finish (some s.next)))
    else .ok s
  | .refInc p n => if (s.procs p).isIdle ∧ 0 < s.held n then copyRef s n else .ok s
  | .refDec p n => if (s.procs p).isIdle ∧ s.opened n < s.held n then refDec s p n else .ok s
  | .openInc p n => if (s.procs p).isIdle ∧ s.opened n < s.held n then openRef s n else .ok s
  | .openDec p n => if (s.procs p).isIdle ∧ 0 < s.opened n then closeRef s n else .ok s
  | .next p ok => nextStep s p ok

/-- `pipe_fs_init`. -/
def pipeFsInit : State :=
  ⟨fun _ => none, [], none, fun _ => .idle, 0, fun _ => 0, fun _ => 0, fun _ => 0, fun _ => false⟩

/-! ### The invariant -/

/-- The walk has found what there is for its name in the part of the list behind it. -/
def Walk.Ok (s : State) (w : Walk) (done : List ℕ) : Prop :=
  ∀ readonly n, w.store readonly = some n ↔ n ∈ done ∧ info s n = some ⟨some w.name, readonly⟩

/-- How far a walk has come. -/
def Pc.Ok (s : State) : Pc → Prop
  | .walkLock w => ∀ readonly, w.store readonly = none
  | .walk w todo | .walkCount w _ todo => ∃ done, s.links = done ++ todo ∧ w.Ok s done
  | .walkRef w n todo => ∃ done, s.links = done ++ n :: todo ∧ w.Ok s done ∧
      ∃ readonly, info s n = some ⟨some w.name, readonly⟩
  | .found w => w.Ok s s.links
  | .unlock ret other | .dropOther ret other => ∀ n, ret = some n → other ≠ some n
  | .reclaimCount n _ => n ∈ s.links
  | _ => True

/-- The names of the inodes: those outside of the list have none, and no two in the list are the same
end of one name. -/
structure Names (s : State) : Prop where
  named : ∀ n x, info s n = some x → (x.name = none ↔ s.stage n = .fresh)
  unique : ∀ m ∈ s.links, ∀ n ∈ s.links, info s m = info s n → m = n
  walks : ∀ p, (s.procs p).Ok s

/-- The invariant. -/
structure Inv (s : State) : Prop where
  inodes : Inodes.Inv control s
  names : Names s

variable {s s' : State} {p n : ℕ} {pc pc₀ : Pc} {i : Inode Pin}

/-- The walks are the same in a list that is the same. -/
lemma Pc.Ok.congr (h : pc.Ok s) (hlinks : s'.links = s.links)
    (hinfo : ∀ n ∈ s.links, info s' n = info s n) : pc.Ok s' := by
  have hwalk : ∀ (w : Walk) done, (∀ n ∈ done, n ∈ s.links) → w.Ok s done → w.Ok s' done := by
    intro w done hdone hw readonly n
    rw [hw readonly n]
    grind
  cases pc with
  | walk w todo | walkCount w _ todo =>
    obtain ⟨done, hEq, hw⟩ := h
    exact ⟨done, hlinks.trans hEq, hwalk w done (by simp +contextual [hEq]) hw⟩
  | walkRef w n todo =>
    obtain ⟨done, hEq, hw, readonly, hn⟩ := h
    exact ⟨done, hlinks.trans hEq, hwalk w done (by simp +contextual [hEq]) hw, readonly,
      (hinfo n (by simp [hEq])).trans hn⟩
  | found w =>
    show w.Ok s' s'.links
    rw [hlinks]
    exact hwalk w s.links (fun _ h => h) h
  | reclaimCount n ret => exact (hlinks ▸ h : n ∈ s'.links)
  | _ => exact h

/-- Where the semaphore is not needed, the list does not matter. -/
lemma Pc.Ok.of_not_locked (h : pc.Ok s) (hpc : control.locked pc = false) : pc.Ok s' := by
  cases pc <;> first | exact h | cases hpc

namespace Names

/-- A process goes on, and the list stays. -/
lemma setPc (hs : Names s) (pc : Pc) (hpc : pc.Ok s) (hprocs : s'.procs = update s.procs p pc)
    (hnamed : ∀ n x, info s' n = some x → info s n = some x ∧ s'.stage n = s.stage n)
    (hinfo : ∀ n ∈ s.links, info s' n = info s n) (hlinks : s'.links = s.links) : Names s' where
  named := fun n x hx => (hnamed n x hx).2 ▸ hs.named n x (hnamed n x hx).1
  unique := by grind [hs.unique]
  walks := fun q => by
    rw [hprocs, update_apply]
    split_ifs
    exacts [hpc.congr hlinks hinfo, (hs.walks q).congr hlinks hinfo]

/-- The process that has the semaphore changes the list. -/
lemma setLinks (hs : Names s) (hinv : Inodes.Inv control s) (pc : Pc) (hsem : s.sem = some p)
    (hnamed : ∀ n x, info s' n = some x → (x.name = none ↔ s'.stage n = .fresh))
    (hunique : ∀ m ∈ s'.links, ∀ n ∈ s'.links, info s' m = info s' n → m = n) (hpc : pc.Ok s')
    (hprocs : s'.procs = update s.procs p pc) : Names s' where
  named := hnamed
  unique := hunique
  walks := fun q => by
    rw [hprocs, update_apply]
    split_ifs with hqp
    · exact hpc
    · refine (hs.walks q).of_not_locked ?_
      by_contra hlocked
      have hq := hinv.sem q (by simpa using hlocked)
      rw [hsem] at hq
      exact hqp (Option.some.inj hq).symm

end Names

namespace Inv

variable (hs : Inv s)
include hs

/-- The process that has the semaphore, by its place. -/
lemma sem (hp : s.procs p = pc₀) (hlocked : control.locked pc₀ = true) :
    s.sem = some p := hs.inodes.sem p (hp ▸ hlocked)

/-- How far the walk of a process has come. -/
lemma walk (hp : s.procs p = pc₀) : pc₀.Ok s := hp ▸ hs.names.walks p

/-- The counts of an inode change, and a process goes on. -/
lemma names_setNode (hi : s.nodes n = some i) (i' : Inode Pin) (hinfo : i'.info = i.info)
    (hstage : n ∈ s.links ∨ i'.reclaimCount = i.reclaimCount) (pc : Pc) (hpc : pc.Ok s)
    (hprocs : s'.procs = update s.procs p pc) (hnodes : s'.nodes = (s.setNode n i').nodes)
    (hlinks : s'.links = s.links) (hnext : s'.next = s.next) : Names s' := by
  have hinfo' : ∀ m, info s' m = info s m := fun m => by
    rw [← info_setNode hi i' hinfo m, info, info, hnodes]
  refine hs.names.setPc pc hpc hprocs (fun m x hx => ⟨hinfo' m ▸ hx, ?_⟩) (fun m _ => hinfo' m) hlinks
  rw [← stage_setNode i' hi hstage m]
  exact stage_congr (by rw [hnodes]) (by rw [hlinks]; rfl) (by rw [hnext]; rfl)

/-- A process goes on, and does with inodes what it did before. -/
lemma setPc (hp : s.procs p = pc₀) (hpc : pc.Ok s) (hact : control.act pc = control.act pc₀)
    (hcarry : control.carry pc = control.carry pc₀)
    (hlocked : control.locked pc = control.locked pc₀) : Inv (s.setPc p pc) :=
  ⟨hs.inodes.setPc hp hact hcarry hlocked, hs.names.setPc pc hpc rfl (fun _ _ h => ⟨h, rfl⟩) (fun _ _ => rfl) rfl⟩

/-- A process releases the semaphore. -/
lemma up (hp : s.procs p = pc₀) (hpc : pc.Ok s)
    (hlock : control.locked pc₀ = true) (hact : control.act pc = control.act pc₀)
    (hcarry : control.carry pc = control.carry pc₀) (hlocked : control.locked pc = false)
    (hfree : ∀ k m, control.act pc₀ = some (k, m) → ¬k.Locked) :
    Inv (State.setPc { s with sem := none } p pc) :=
  ⟨hs.inodes.up (hs.sem hp hlock) hp hact hcarry hlocked hfree,
    hs.names.setPc pc hpc rfl (fun _ _ h => ⟨h, rfl⟩) (fun _ _ => rfl) rfl⟩

/-- An inode of the list. -/
lemma exists_node_of_mem (hn : n ∈ s.links) : ∃ i, s.nodes n = some i :=
  hs.inodes.tables.allocated n hn

/-- The end of a name that comes next in the list is not yet found. -/
lemma store_eq_none {w : Walk} {done todo : List ℕ} {readonly : Bool}
    (hlinks : s.links = done ++ n :: todo) (hw : w.Ok s done)
    (hn : info s n = some ⟨some w.name, readonly⟩) : w.store readonly = none := by
  by_contra hsome
  obtain ⟨m, hm⟩ := Option.ne_none_iff_exists'.mp hsome
  obtain ⟨hdone, hinfo⟩ := (hw readonly m).mp hm
  obtain rfl := hs.names.unique m (by simp [hlinks, hdone]) n (by simp [hlinks]) (hinfo.trans hn.symm)
  have hnodup := hs.inodes.tables.nodup
  grind

end Inv

namespace Walk

variable {w : Walk} {done : List ℕ}

/-- An inode of another name does not matter. -/
lemma Ok.skip (hw : w.Ok s done) (hn : ∀ readonly, info s n ≠ some ⟨some w.name, readonly⟩) :
    w.Ok s (done ++ [n]) := by
  intro readonly m
  rw [hw readonly m, mem_append, mem_singleton]
  grind

variable {readonly : Bool}

/-- An inode of the name is one of its ends. -/
lemma Ok.store (hw : w.Ok s done) (hn : info s n = some ⟨some w.name, readonly⟩)
    (hunique : ∀ m ∈ done, info s m = info s n → m = n) :
    Walk.Ok s { w with store := update w.store readonly (some n) } (done ++ [n]) := by
  intro r m
  rw [mem_append, mem_singleton]
  obtain rfl | hr := eq_or_ne r readonly
  · grind
  · simp only [update_of_ne hr]
    rw [hw r m]
    grind

/-- What a walk has found, from the end that it asks for. -/
lemma nodes_eq (w : Walk) (readonly : Bool) :
    w.nodes = (w.store readonly).toFinset ∪ (w.store !readonly).toFinset := by
  cases readonly
  · rw [nodes, Finset.union_comm]
    rfl
  · rfl

lemma nodes_store (hnone : w.store readonly = none) :
    Walk.nodes { w with store := update w.store readonly (some n) } = insert n w.nodes := by
  rw [nodes_eq _ readonly, nodes_eq w readonly, hnone]
  simp

/-- The two ends are different inodes. -/
lemma Ok.ne (hw : w.Ok s done) (hn : w.store readonly = some n) : w.store (!readonly) ≠ some n := by
  intro hother
  have hinfo := ((hw _ n).mp hn).2
  rw [((hw _ n).mp hother).2] at hinfo
  simp at hinfo

end Walk

/-! ### The steps -/

variable {todo : List ℕ} {ok : Bool} {ret : Option ℕ} {w : Walk}

lemma eq_idle_of_isIdle (h : pc.isIdle = true) : pc = .idle := by
  cases pc <;> first | rfl | cases h

lemma erase_union_toFinset (h : ret ≠ some n) : (ret.toFinset ∪ (some n).toFinset).erase n = ret.toFinset := by
  cases ret with
  | none => simp
  | some m =>
    ext x
    simp only [Option.toFinset_some]
    grind

variable (hs : Inv s)
include hs

lemma walk_spec (hp : s.procs p = .walk w todo) : Yields (nextStep s p ok) Inv := by
  obtain ⟨done, hlinks, hw⟩ := hs.walk hp
  cases todo with
  | nil =>
    rw [append_nil] at hlinks
    rw [nextStep, hp]
    exact ⟨_, rfl, hs.setPc hp (show w.Ok s s.links by rwa [hlinks]) rfl rfl rfl⟩
  | cons n todo =>
    have hmem : n ∈ s.links := by simp [hlinks]
    obtain ⟨i, hi⟩ := hs.exists_node_of_mem hmem
    simp only [nextStep, hp, node, hi, ok_bind]
    split_ifs with hname
    · have hinfo : info s n = some ⟨some w.name, i.info.readonly⟩ := by
        rw [info_eq hi, ← hname]
      simp only [hs.store_eq_none hlinks hw hinfo, assert, if_true]
      exact ⟨_, rfl, hs.inodes.find (hs.sem hp rfl) hp hmem rfl rfl rfl, hs.names.setPc (.walkRef w n todo)
        ⟨done, hlinks, hw, _, hinfo⟩ rfl (fun _ _ h => ⟨h, rfl⟩) (fun _ _ => rfl) rfl⟩
    · refine ⟨_, rfl, hs.setPc hp ⟨done ++ [n], by simp [hlinks], hw.skip fun _ h => ?_⟩ rfl rfl rfl⟩
      grind [info_eq]

lemma walkRef_spec (hp : s.procs p = .walkRef w n todo) : Yields (nextStep s p ok) Inv := by
  obtain ⟨done, hlinks, hw, readonly, hinfo⟩ := hs.walk hp
  have hmem : n ∈ s.links := by simp [hlinks]
  obtain ⟨i, hi⟩ := hs.exists_node_of_mem hmem
  obtain rfl : i.info.readonly = readonly := by
    rw [info_eq hi] at hinfo
    rw [Option.some.inj hinfo]
  have hnone := hs.store_eq_none hlinks hw hinfo
  have hfresh : n ∉ w.nodes := by
    have hnodup := hs.inodes.tables.nodup
    rw [Walk.nodes_eq w i.info.readonly, hnone]
    intro h
    obtain ⟨hdone, -⟩ := (hw _ n).mp (by simpa using h)
    grind
  have hstore := hw.store hinfo fun m hm hEq =>
    hs.names.unique m (by simp [hlinks, hm]) n hmem hEq
  simp only [nextStep, hp, inodeRefInc, node, hi, ok_bind, pure_eq_ok, Nat.add_eq_right]
  refine ⟨_, rfl, hs.inodes.take hi hp hfresh ?_ ?_ rfl,
    hs.names_setNode hi { i with refCount := i.refCount + 1 } rfl (.inr rfl) _ ?_ rfl rfl rfl rfl⟩
  · split_ifs <;> rfl
  · show control.carry _ = insert n w.nodes
    rw [← Walk.nodes_store hnone]
    split_ifs <;> rfl
  · split_ifs <;> exact ⟨done ++ [n], by simp [hlinks], hstore⟩

lemma walkCount_spec (hp : s.procs p = .walkCount w n todo) : Yields (nextStep s p ok) Inv := by
  have hact : control.act (s.procs p) = some (.raised, n) := hp ▸ rfl
  obtain ⟨i, hi⟩ := hs.inodes.exists_node hact
  have hlinked := mem_links_of_stage ((hs.inodes.cache.obj n).stage_of_pos (hs.inodes.cache.count_pos hact))
  simp only [nextStep, hp, node, hi, ok_bind]
  have hwalk := hs.walk hp
  have hok : (Pc.walk w todo).Ok s := hwalk
  exact ⟨_, rfl, hs.inodes.ticket hi hp rfl rfl rfl,
    hs.names_setNode hi { i with reclaimCount := i.reclaimCount + 1 } rfl (.inl hlinked) (.walk w todo)
      hok rfl rfl rfl rfl⟩

/-- A process drops one of its references. -/
lemma dropOwn_spec {stop next : Pc} (hp : s.procs p = pc₀) (hn : n ∈ control.carry pc₀)
    (hcarry : control.carry stop = (control.carry pc₀).erase n ∧
      control.carry next = (control.carry pc₀).erase n)
    (hlocked : control.locked next = true → s.sem = some p) (hok : stop.Ok s ∧ next.Ok s)
    (hact : control.act pc₀ = none) (hstop : control.act stop = some (.waits, n))
    (hnext : control.act next = none) (hfree : control.locked stop = false) :
    Yields (dropOwn s p n stop next) Inv := by
  obtain ⟨i, hi, hpos, -⟩ := hs.inodes.exists_node_of_carry (hp ▸ hn)
  simp only [dropOwn, inodeRefDec_eq hi hpos, ok_bind, sub_one_eq_zero hpos]
  refine ⟨_, rfl, hs.inodes.dropOwn hi hp hn ?_ ?_ ?_ hact, hs.names_setNode hi
    { i with refCount := i.refCount - 1 } rfl (.inr rfl) _ ?_ rfl rfl rfl rfl⟩ <;>
    split_ifs <;> grind

lemma dropOther_spec {other : Option ℕ} (hp : s.procs p = .dropOther ret other) : Yields (nextStep s p ok) Inv := by
  rw [nextStep, hp]
  cases other with
  | none => exact ⟨_, rfl, hs.setPc hp trivial rfl (by simp [control]) rfl⟩
  | some n =>
    have hne : ret ≠ some n := fun h => hs.walk hp n h rfl
    refine dropOwn_spec hs hp (by simp [control]) ?_ (nomatch ·) ⟨trivial, trivial⟩ rfl rfl rfl rfl
    show ret.toFinset = (ret.toFinset ∪ (some n).toFinset).erase n ∧ _
    rw [erase_union_toFinset hne]
    exact ⟨rfl, (erase_union_toFinset hne).symm⟩

/-- What is known of the other inodes when one is made. -/
lemma Inv.info_alloc (x : Pin) : (∀ n ∈ s.links, n ≠ s.next) ∧ (∀ n, info (allocInode s x) n =
      if n = s.next then some x else info s n) ∧ ∀ n, n ≠ s.next → (allocInode s x).stage n = s.stage n := by
  refine ⟨fun n hn h => hs.inodes.notMem_next (h ▸ hn), fun n => ?_, fun n hn => ?_⟩
  · rw [info, info, allocInode_nodes]
    split_ifs <;> rfl
  · exact stage_congr (by rw [allocInode_nodes, if_neg hn]) Iff.rfl
      ⟨fun h => lt_of_le_of_ne (Nat.lt_succ_iff.mp h) hn, Nat.lt_succ_of_lt⟩

/-- An inode is made with a name, and comes into the list. -/
lemma makeLink_spec (x : Pin) (pc : Pc) (hsem : s.sem = some p) (hp : s.procs p = pc₀)
    (hcarry : control.carry pc = insert s.next (control.carry pc₀)) (hname : x.name ≠ none)
    (hnew : ∀ n ∈ s.links, info s n ≠ some x) (hok : pc.Ok (State.setPc
      { allocInode s x with links := s.next :: s.links } p pc))
    (hact : control.act pc₀ = none) (hpc : control.act pc = none) :
    Inv (State.setPc { allocInode s x with links := s.next :: s.links } p pc) := by
  obtain ⟨hnot, hinfo, hstage⟩ := hs.info_alloc x
  set s₁ := State.setPc { allocInode s x with links := s.next :: s.links } p pc with hs₁
  have hmake : Inodes.Inv control ((allocInode s x).setPc p pc) :=
    hs.inodes.make hp x (fun _ => hsem) hact hpc hcarry
  have hfresh : ((allocInode s x).setPc p pc).stage s.next = .fresh := by
    have hout : s.next ∉ ((allocInode s x).setPc p pc).links := fun h => hnot _ h rfl
    simp [stage, show ((allocInode s x).setPc p pc).nodes s.next = some ⟨1, 0, 1, x⟩ by
      simp [State.setPc], hout]
  have hlink := hmake.link (by simp) rfl hsem (by rw [hcarry]; exact Finset.mem_insert_self _ _) hfresh hpc hpc
  have hEq : State.setPc { (allocInode s x).setPc p pc with
      links := s.next :: ((allocInode s x).setPc p pc).links } p pc = s₁ := by
    simp only [hs₁, State.setPc, update_idem]
    rfl
  rw [hEq] at hlink
  refine ⟨hlink, hs.names.setLinks hs.inodes pc hsem (fun n y (hy : info (allocInode s x) n = _) => ?_) ?_ hok rfl⟩
  · rw [hinfo] at hy
    split_ifs at hy with hn
    · cases hy
      have hst : s₁.stage n = .linked :=
        stage_of_mem_links (i := ⟨1, 0, 1, x⟩) (by simp [hs₁, State.setPc, hn]) (by simp [hs₁, State.setPc, hn])
      simp [hst, hname]
    · have hst : s₁.stage n = (allocInode s x).stage n :=
        stage_congr rfl (by simp [hs₁, State.setPc, allocInode, setNode, hn]) Iff.rfl
      rw [hs.names.named n y hy, hst, hstage n hn]
  · intro m hm n hn (hEq : info (allocInode s x) m = info (allocInode s x) n)
    rw [hinfo, hinfo] at hEq
    obtain rfl | hm := mem_cons.mp hm <;> rcases mem_cons.mp hn with rfl | hn
    · rfl
    · grind
    · grind
    · rw [if_neg (hnot m hm), if_neg (hnot n hn)] at hEq
      exact hs.names.unique m hm n hn hEq

lemma found_spec (hp : s.procs p = .found w) : Yields (nextStep s p ok) Inv := by
  have hsem := hs.sem hp rfl
  have hw : w.Ok s s.links := hs.walk hp
  have hcarry : control.carry (.found w) =
      (w.store w.readonly).toFinset ∪ (w.store !w.readonly).toFinset := Walk.nodes_eq w _
  have hgo : Inv (s.setPc p (.unlock (w.store w.readonly) (w.store !w.readonly))) :=
    hs.setPc hp (fun n hn => hw.ne hn) rfl hcarry.symm rfl
  have hrun : nextStep s p ok = afterWalk s p w ok := by rw [nextStep, hp]
  rw [hrun]
  cases hcall : w.call with
  | lookup => exact ⟨_, by rw [afterWalk, hcall], hgo⟩
  | create excl =>
    cases hnode : w.store w.readonly with
    | some n =>
      cases excl with
      | false => grind [afterWalk]
      | true =>
        have herase : (control.carry (.found w)).erase n = (w.store !w.readonly).toFinset := by
          rw [hcarry, hnode, Finset.union_comm, erase_union_toFinset (hw.ne hnode)]
        simp only [afterWalk, hcall, hnode, if_true]
        refine dropOwn_spec hs hp (by simp [hcarry, hnode]) ?_ (fun _ => hsem) ⟨trivial, nofun⟩ rfl rfl rfl rfl
        rw [herase]
        exact ⟨rfl, by simp [control]⟩
    | none =>
      cases ok with
      | false => grind [afterWalk]
      | true =>
        have hnew : ∀ n ∈ s.links, info s n ≠ some ⟨some w.name, w.readonly⟩ := by
          intro n hn hinfo
          rw [(hw w.readonly n).mpr ⟨hn, hinfo⟩] at hnode
          cases hnode
        have hother : (w.store !w.readonly) ≠ some s.next := fun h =>
          hs.inodes.notMem_next ((hw _ _).mp h).1
        have hmake := makeLink_spec hs ⟨some w.name, w.readonly⟩
          (.unlock (some s.next) (w.store !w.readonly)) hsem hp
          (by rw [hcarry, hnode]; simp [control]) (by simp) hnew
          (fun n hn => by rwa [← Option.some.inj hn]) rfl rfl
        simp only [afterWalk, hcall, hnode, if_true]
        exact ⟨_, rfl, hmake⟩

lemma reclaimCount_spec (hp : s.procs p = .reclaimCount n ret) : Yields (nextStep s p ok) Inv := by
  have hlinked : n ∈ s.links := hs.walk hp
  obtain ⟨i, hi⟩ := hs.exists_node_of_mem hlinked
  obtain ⟨hpos, hlast⟩ := hs.inodes.reclaimCount_pos hi (hs.sem hp rfl) (hp ▸ rfl) hlinked
  simp only [nextStep, hp, node, hi, assert, if_pos hpos, ok_bind]
  split_ifs with hbusy
  all_goals
    refine ⟨_, rfl, hs.inodes.give hi hp rfl (hs.sem hp rfl) hlinked ?_ rfl,
      hs.names_setNode hi { i with reclaimCount := i.reclaimCount - 1 } rfl (.inl hlinked) _
        (by trivial) rfl rfl rfl rfl⟩
  · rw [if_neg (by omega)]
    rfl
  · rw [if_pos (by omega)]
    rfl

lemma reclaimRemove_spec (hp : s.procs p = .reclaimRemove n ret) : Yields (nextStep s p ok) Inv := by
  have hact : control.act (s.procs p) = some (.last, n) := hp ▸ rfl
  set s₁ := State.setPc { s with links := s.links.erase n } p (.reclaimUnlock n ret) with hs₁
  have hremove : Inodes.Inv control s₁ := hs.inodes.remove hp rfl rfl rfl
  have hstage : s₁.stage n = .removed :=
    (hremove.cache.of_dying (p := p) (by simp [hs₁, cache, control])).1
  rw [nextStep, hp]
  refine ⟨_, rfl, hremove, hs.names.setLinks hs.inodes (.reclaimUnlock n ret) (hs.sem hp rfl) (fun m x hx => ?_)
    (fun l hl m hm hEq => ?_) trivial rfl⟩
  · rw [hs.names.named m x hx]
    by_cases hmn : m = n
    · have hlinked : s.stage m = .linked := hmn ▸ (hs.inodes.cache.of_last hact).1
      rw [hlinked, hmn, hstage]
      simp
    · have hsame : s₁.stage m = s.stage m := stage_congr rfl (mem_erase_of_ne hmn) Iff.rfl
      rw [hsame]
  · exact hs.names.unique l (mem_of_mem_erase hl) m (mem_of_mem_erase hm) hEq

/-- A process frees an inode that it has taken out of the list, or that has no name. -/
lemma kill_spec (ret : Option ℕ) (hp : s.procs p = pc₀) (hact : control.act pc₀ = some (.dying, n) ∨
      control.act pc₀ = some (.waits, n) ∧ s.stage n = .fresh) (hlinked : s.stage n ≠ .linked)
    (hcarry : control.carry pc₀ = ret.toFinset) (hlocked : control.locked pc₀ = false) :
    ∃ s', inodeKill s n = .ok s' ∧ Inv (s'.setPc p (.finish ret)) := by
  have hkill := hs.inodes.kill hp (show control.carry (.finish ret) = _ from hcarry.symm) hact rfl hlocked.symm
  obtain ⟨s', hrun, rfl, hkill⟩ := hkill
  have hnot : n ∉ s.links := fun hn => by
    obtain ⟨i, hi⟩ := hs.exists_node_of_mem hn
    exact hlinked (stage_of_mem_links hi hn)
  refine ⟨_, hrun, hkill, hs.names.setPc (.finish ret) trivial rfl (fun m x hx => ?_) (fun m hm => ?_) rfl⟩
  · by_cases hmn : m = n
    · simp [info, State.setPc, hmn] at hx
    · have hnode : update s.nodes n none m = s.nodes m := update_of_ne hmn _ _
      refine ⟨?_, stage_congr hnode Iff.rfl Iff.rfl⟩
      rw [← hx]
      simp [info, State.setPc, hnode]
  · have hmn : m ≠ n := fun h => hnot (h ▸ hm)
    simp [info, State.setPc, update_of_ne hmn]

lemma reclaim_spec (hp : s.procs p = .reclaim n ret) : Yields (nextStep s p ok) Inv := by
  have hact : control.act (s.procs p) = some (.waits, n) := hp ▸ rfl
  obtain ⟨i, hi⟩ := hs.inodes.exists_node hact
  have hnamed := hs.names.named n i.info (info_eq hi)
  simp only [nextStep, hp, node, hi, ok_bind]
  split_ifs with hname hsem
  · have hfresh := hnamed.mp hname
    obtain ⟨s', hkill, hs'⟩ := kill_spec hs ret hp (.inr ⟨rfl, hfresh⟩) (by simp [hfresh]) rfl rfl
    rw [hkill]
    exact ⟨_, rfl, hs'⟩
  · have hin : s.stage n = .fresh ∨ s.stage n = .linked :=
      (hs.inodes.cache.obj n).stage_of_pos (hs.inodes.cache.count_pos hact)
    have hlinked : n ∈ s.links := mem_links_of_stage (hin.resolve_left fun h => hname (hnamed.mpr h))
    exact ⟨_, rfl, hs.inodes.down hsem hp rfl rfl,
      hs.names.setPc (.reclaimCount n ret) hlinked rfl (fun _ _ h => ⟨h, rfl⟩) (fun _ _ => rfl) rfl⟩
  · exact ⟨s, rfl, hs⟩

lemma reclaimKill_spec (hp : s.procs p = .reclaimKill n ret) : Yields (nextStep s p ok) Inv := by
  have hact : control.act (s.procs p) = some (.dying, n) := hp ▸ rfl
  have hstage : s.stage n = .removed := (hs.inodes.cache.of_dying hact).1
  obtain ⟨s', hkill, hs'⟩ := kill_spec hs ret hp (.inl rfl) (by simp [hstage]) rfl rfl
  simp only [nextStep, hp, hkill, ok_bind]
  exact ⟨_, rfl, hs'⟩

lemma finish_spec (hp : s.procs p = .finish ret) : Yields (nextStep s p ok) Inv := by
  rw [nextStep, hp]
  cases ret with
  | none => exact ⟨_, rfl, hs.setPc hp trivial rfl rfl rfl⟩
  | some n => exact ⟨_, rfl, hs.inodes.settle hp rfl rfl rfl rfl rfl,
      hs.names.setPc .idle trivial rfl (fun _ _ h => ⟨h, rfl⟩) (fun _ _ => rfl) rfl⟩

/-- The next step of a process does not fail. -/
lemma nextStep_spec (p : ℕ) (ok : Bool) : Yields (nextStep s p ok) Inv := by
  cases hp : s.procs p with
  | idle | stuck => exact ⟨s, by rw [nextStep, hp], hs⟩
  | walkLock w =>
    rw [nextStep, hp]
    refine yields_ite hs fun hsem => ?_
    have hstore : ∀ readonly, w.store readonly = none := hs.walk hp
    exact ⟨_, rfl, hs.inodes.down hsem hp rfl (by simp [control, Walk.nodes, hstore]),
      hs.names.setPc (.walk w s.links) ⟨[], rfl, fun readonly n => by simp [hstore]⟩ rfl
        (fun _ _ h => ⟨h, rfl⟩) (fun _ _ => rfl) rfl⟩
  | walk w todo => exact walk_spec hs hp
  | walkRef w n todo => exact walkRef_spec hs hp
  | walkCount w n todo => exact walkCount_spec hs hp
  | found w => exact found_spec hs hp
  | unlock ret other =>
    rw [nextStep, hp]
    have hwalk := hs.walk hp
    have hok : (Pc.dropOther ret other).Ok s := hwalk
    exact ⟨_, rfl, hs.up hp hok rfl rfl rfl rfl (by rintro _ _ ⟨⟩)⟩
  | dropOther ret other => exact dropOther_spec hs hp
  | reclaim n ret => exact reclaim_spec hs hp
  | reclaimCount n ret => exact reclaimCount_spec hs hp
  | reclaimRemove n ret => exact reclaimRemove_spec hs hp
  | reclaimBusy ret =>
    rw [nextStep, hp]
    exact ⟨_, rfl, hs.up hp trivial rfl rfl rfl rfl (by rintro _ _ ⟨⟩)⟩
  | reclaimUnlock n ret =>
    rw [nextStep, hp]
    exact ⟨_, rfl, hs.up hp trivial rfl rfl rfl rfl (by rintro _ _ ⟨⟩; exact id)⟩
  | reclaimKill n ret => exact reclaimKill_spec hs hp
  | finish ret => exact finish_spec hs hp

lemma refDec_spec (hp : s.procs p = .idle) (hheld : s.opened n < s.held n) : Yields (refDec s p n) Inv := by
  obtain ⟨i, hi, hle⟩ := hs.inodes.exists_node_of_held (Nat.zero_lt_of_lt hheld)
  have hpos := Nat.zero_lt_of_lt (hheld.trans_le hle)
  simp only [refDec, inodeRefDec_eq hi hpos, ok_bind, sub_one_eq_zero hpos]
  refine ⟨_, rfl, hs.inodes.drop hi hp ?_ hheld ?_ ?_ rfl, hs.names_setNode hi
    { i with refCount := i.refCount - 1 } rfl (.inr rfl) _ ?_ rfl rfl rfl rfl⟩ <;>
    split_ifs <;> first | rfl | trivial

/-- `pipe_open` makes an inode. -/
lemma pipe_spec (hp : s.procs p = .idle) (readonly : Bool) :
    Inv ((allocInode s ⟨none, readonly⟩).setPc p (.finish (some s.next))) := by
  obtain ⟨hnot, hinfo, hstage⟩ := hs.info_alloc ⟨none, readonly⟩
  have hsame : ∀ n ∈ s.links, info (allocInode s ⟨none, readonly⟩) n = info s n := fun n hn => by
    rw [hinfo, if_neg (hnot n hn)]
  refine ⟨hs.inodes.make hp _ (nomatch ·) rfl rfl rfl,
    ⟨fun n x (hx : info (allocInode s ⟨none, readonly⟩) n = _) => ?_, fun m hm n hn hEq => ?_, fun q => ?_⟩⟩
  · rw [hinfo] at hx
    split_ifs at hx with hn
    · cases hx
      simp [stage, State.setPc, allocInode, setNode, hn, hs.inodes.notMem_next]
    · rw [hs.names.named n x hx, ← hstage n hn]
      rfl
  · exact hs.names.unique m hm n hn ((hsame m hm).symm.trans (hEq.trans (hsame n hn)))
  · rw [setPc_procs]
    split_ifs
    · trivial
    · exact (hs.names.walks q).congr rfl hsame

/-- The users of an inode do something with it. -/
lemma Inv.of_same {x : Except Panic State} (hx : ∃ s', x = .ok s' ∧ Inodes.Inv control s' ∧ SameInfo s s') :
    Yields x Inv := by
  obtain ⟨s', hx, hinodes, hsame⟩ := hx
  have hprocs : s'.procs = update s.procs 0 (s.procs 0) := by
    rw [update_eq_self, hsame.procs]
  exact ⟨s', hx, hinodes, hs.names.setPc _ (hs.names.walks 0) hprocs
    (fun n x h => ⟨hsame.info n ▸ h, hsame.stage n⟩) (fun n _ => hsame.info n) hsame.links⟩

/-- No step fails, and each keeps the invariant. -/
lemma step_spec (e : Event) : Yields (step s e) Inv := by
  -- a call begins with the wait for the semaphore
  have hcall : ∀ p w, (s.procs p).isIdle = true → (∀ readonly, w.store readonly = none) →
      Inv (s.setPc p (.walkLock w)) := fun p w hp hw => by
    have hidle : s.procs p = .idle := eq_idle_of_isIdle hp
    have hok : (Pc.walkLock w).Ok s := hw
    exact ⟨hs.inodes.setPc hidle rfl rfl rfl,
      hs.names.setPc (.walkLock w) hok rfl (fun _ _ h => ⟨h, rfl⟩) (fun _ _ => rfl) rfl⟩
  have hact : ∀ p, (s.procs p).isIdle = true → control.act (s.procs p) = none := fun p hp => by
    rw [eq_idle_of_isIdle hp]
    rfl
  cases e with
  | lookup p _ _ | create p _ _ _ =>
    exact yields_ite hs fun hp => ⟨_, rfl, hcall p _ hp fun _ => rfl⟩
  | pipe p readonly =>
    exact yields_ite hs fun hp => ⟨_, rfl, pipe_spec hs (eq_idle_of_isIdle hp) readonly⟩
  | refInc p n =>
    exact yields_ite hs fun hp => hs.of_same (hs.inodes.copyRef_spec (hact p hp.1) hp.2)
  | refDec p n =>
    exact yields_ite hs fun hp => refDec_spec hs (eq_idle_of_isIdle hp.1) hp.2
  | openInc p n =>
    exact yields_ite hs fun hp => hs.of_same (hs.inodes.openRef_spec (hact p hp.1) hp.2)
  | openDec p n =>
    exact yields_ite hs fun hp => hs.of_same (hs.inodes.closeRef_spec (hact p hp.1) hp.2)
  | next p ok => exact nextStep_spec hs p ok

omit hs

lemma inv_pipeFsInit : Inv pipeFsInit := by
  refine ⟨inv_empty rfl rfl rfl, ⟨fun n x h => ?_, fun m h => ?_, fun p => trivial⟩⟩
  · cases h
  · cases h

/-- In every run no step fails, no two inodes in the list are the same end of one name, and a walk that has
come to the end of the list has found the ends of its name. -/
theorem pipe_names_unique (es : List Event) : ∃ s, es.foldlM step pipeFsInit = .ok s ∧
    (∀ m ∈ s.links, ∀ n ∈ s.links, info s m = info s n → m = n) ∧
    ∀ p w, s.procs p = .found w → ∀ readonly n, w.store readonly = some n ↔
      n ∈ s.links ∧ info s n = some ⟨some w.name, readonly⟩ := by
  obtain ⟨s, hrun, hs⟩ := Guarded.exists_foldlM (fun s e hs => step_spec hs e) inv_pipeFsInit es
  exact ⟨s, hrun, hs.names.unique, fun p w hp => hs.walk hp⟩

end UcoreKernel.PipeInodes
