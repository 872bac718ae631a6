import UcoreKernel.Lib.Except
import UcoreKernel.Lib.Revival

/-!
Inodes and their reference counts: `fs/vfs/inode.c`.

The state is that of the inodes of one file system: `I` is the part of an inode that belongs to the
file system, with the exception of `reclaim_count`, which every file system with a cache has, and `C`
are the places where a process can be in the functions of the file system. Memory that has been freed
is not used again, so an inode is named by a number for ever.

Four fields keep an account and are read by no function of the source: the references and the openings
that the users have, how often an inode was freed, and whether it was kept because it could not be
written.
-/

namespace UcoreKernel.Inodes

open UcoreKernel.Except (Ensures)
open Function List

open Revival (Kind Stage Obj Cache Step)

/-- `struct inode`, with the `reclaim_count` of the file system. -/
structure Inode (I : Type) where
  refCount : ℕ
  openCount : ℕ
  reclaimCount : ℕ
  info : I

/-- The state. `links` are the inodes in the lists of the file system, `sem` is the process that has
its semaphore, `next` the next name for an inode; the last four fields are the account. -/
structure State (I C : Type) where
  nodes : ℕ → Option (Inode I)
  links : List ℕ
  sem : Option ℕ
  procs : ℕ → C
  next : ℕ
  held : ℕ → ℕ
  opened : ℕ → ℕ
  kills : ℕ → ℕ
  kept : ℕ → Bool

/-- The functions whose assertions can fail, and an access to an inode that was freed. -/
inductive Panic where
  | freed
  | refDec
  | openDec
  | reclaim
  | kill
  | lookup
deriving DecidableEq, Repr

/-- `assert`. -/
def assert (panic : Panic) (p : Prop) [Decidable p] : Except Panic Unit :=
  if p then .ok () else .error panic

variable {I C : Type}

/-- An inode that is used. -/
def State.node (s : State I C) (n : ℕ) : Except Panic (Inode I) :=
  match s.nodes n with
  | some i => .ok i
  | none => .error .freed

/-- The part of an inode that belongs to the file system. -/
def info (s : State I C) (n : ℕ) : Option I := (s.nodes n).map Inode.info

/-- Another value for an inode. -/
def State.setNode (s : State I C) (n : ℕ) (i : Inode I) : State I C :=
  { s with nodes := update s.nodes n (some i) }

/-- Another place for a process. -/
def State.setPc (s : State I C) (p : ℕ) (pc : C) : State I C :=
  { s with procs := update s.procs p pc }

/-- `inode_ref_inc`. -/
def inodeRefInc (s : State I C) (n : ℕ) : Except Panic (ℕ × State I C) := do
  let i ← s.node n
  return (i.refCount + 1, s.setNode n { i with refCount := i.refCount + 1 })

/-- `inode_ref_dec` up to the call of `vop_reclaim`. -/
def inodeRefDec (s : State I C) (n : ℕ) : Except Panic (ℕ × State I C) := do
  let i ← s.node n
  assert .refDec (0 < i.refCount)
  return (i.refCount - 1, s.setNode n { i with refCount := i.refCount - 1 })

/-- `inode_open_inc`. -/
def inodeOpenInc (s : State I C) (n : ℕ) : Except Panic (State I C) := do
  let i ← s.node n
  return s.setNode n { i with openCount := i.openCount + 1 }

/-- `inode_open_dec` up to the call of `vop_close`. -/
def inodeOpenDec (s : State I C) (n : ℕ) : Except Panic (State I C) := do
  let i ← s.node n
  assert .openDec (0 < i.openCount)
  return s.setNode n { i with openCount := i.openCount - 1 }

/-- `inode_kill`. -/
def inodeKill (s : State I C) (n : ℕ) : Except Panic (State I C) := do
  let i ← s.node n
  assert .kill (i.refCount = 0)
  assert .kill (i.openCount = 0)
  return { s with
    nodes := update s.nodes n none
    kills := update s.kills n (s.kills n + 1) }

/-- `alloc_inode`, `vop_init` and the initialisation of `reclaim_count`. -/
def allocInode (s : State I C) (info : I) : State I C :=
  { s.setNode s.next ⟨1, 0, 1, info⟩ with next := s.next + 1 }

/-- The users of an inode take another reference (`vop_ref_inc`). -/
def copyRef (s : State I C) (n : ℕ) : Except Panic (State I C) := do
  let (_, s) ← inodeRefInc s n
  return { s with held := update s.held n (s.held n + 1) }

/-- The users of an inode open it (`vop_open_inc`). -/
def openRef (s : State I C) (n : ℕ) : Except Panic (State I C) := do
  let s ← inodeOpenInc s n
  return { s with opened := update s.opened n (s.opened n + 1) }

/-- The users of an inode close it (`vop_open_dec`). -/
def closeRef (s : State I C) (n : ℕ) : Except Panic (State I C) := do
  let s ← inodeOpenDec s n
  return { s with opened := update s.opened n (s.opened n - 1) }

/-- A reference that a process has becomes one of the users. -/
def returnRef (s : State I C) (n : ℕ) : State I C :=
  { s with held := update s.held n (s.held n + 1) }

section Recounted

variable {s : State I C} {n : ℕ}

/-- Nothing but the inodes and the references to them has changed. -/
def Recounted (s s' : State I C) : Prop := s'.procs = s.procs ∧ s'.sem = s.sem ∧ s'.kills = s.kills

lemma inodeRefInc_recounted : Ensures (fun _ => True) (inodeRefInc s n) fun r => Recounted s r.2 :=
  .bind_any fun _ => ⟨rfl, rfl, rfl⟩

lemma inodeRefDec_recounted : Ensures (fun _ => True) (inodeRefDec s n) fun r => Recounted s r.2 :=
  .bind_any fun _ => .bind_any fun _ => ⟨rfl, rfl, rfl⟩

lemma copyRef_recounted : Ensures (fun _ => True) (copyRef s n) (Recounted s) :=
  inodeRefInc_recounted.bind fun _ h => h

lemma openRef_recounted : Ensures (fun _ => True) (openRef s n) (Recounted s) :=
  .bind (P := Recounted s) (.bind_any fun _ => ⟨rfl, rfl, rfl⟩) fun _ h => h

lemma closeRef_recounted : Ensures (fun _ => True) (closeRef s n) (Recounted s) :=
  .bind (P := Recounted s) (.bind_any fun _ => .bind_any fun _ => ⟨rfl, rfl, rfl⟩) fun _ h => h

lemma inodeKill_kills : Ensures (fun _ => True) (inodeKill s n) fun s' =>
    s'.procs = s.procs ∧ s'.sem = s.sem ∧ s'.kills = update s.kills n (s.kills n + 1) :=
  .bind_any fun _ => .bind_any fun _ => .bind_any fun _ => ⟨rfl, rfl, rfl⟩

end Recounted

/-! ### The cache of objects -/

/-- What a process is doing at its place: with which inode, which references it has, and whether it
has the semaphore. -/
structure Control (C : Type) where
  act : C → Option (Kind × ℕ)
  carry : C → Finset ℕ
  locked : C → Bool

/-- The stage of an inode. -/
def State.stage (s : State I C) (n : ℕ) : Stage :=
  match s.nodes n with
  | none => if n < s.next then .dead else .unmade
  | some i =>
    if n ∈ s.links then .linked
    else if i.reclaimCount = 0 then .removed
    else .fresh

/-- An inode as an object with tickets. -/
def State.obj (s : State I C) (n : ℕ) : Obj where
  ref := (s.nodes n).elim 0 Inode.refCount
  opens := (s.nodes n).elim 0 Inode.openCount
  tickets := (s.nodes n).elim 0 Inode.reclaimCount
  pool := s.held n
  killed := s.kills n
  stage := s.stage n
  kept := s.kept n

/-- The cache of objects. -/
def State.cache (K : Control C) (s : State I C) : Cache ℕ ℕ :=
  ⟨s.obj, s.sem, fun p => K.act (s.procs p), fun p => K.carry (s.procs p)⟩

variable {K : Control C} {s s' : State I C} {p n : ℕ} {pc pc₀ : C} {i j : Inode I}

section

variable (s : State I C)

@[simp, grind =] lemma setNode_nodes (n m : ℕ) (j : Inode I) :
    (s.setNode n j).nodes m = if m = n then some j else s.nodes m := update_apply ..

@[simp, grind =] lemma setPc_procs (p q : ℕ) (pc : C) :
    (s.setPc p pc).procs q = if q = p then pc else s.procs q := update_apply ..

@[simp, grind =] lemma allocInode_nodes (info : I) (m : ℕ) :
    (allocInode s info).nodes m = if m = s.next then some ⟨1, 0, 1, info⟩ else s.nodes m := setNode_nodes ..

@[simp, grind =] lemma allocInode_procs (info : I) (q : ℕ) : (allocInode s info).procs q = s.procs q := rfl

end

/-- The tables of a file system. -/
structure Tables (s : State I C) : Prop where
  nodup : s.links.Nodup
  allocated : ∀ n ∈ s.links, ∃ i, s.nodes n = some i
  below : ∀ n i, s.nodes n = some i → n < s.next
  opened : ∀ n, s.opened n = (s.obj n).opens

/-- The invariant of a file system. -/
structure Inv (K : Control C) (s : State I C) : Prop where
  cache : Revival.Inv (s.cache K)
  sem : ∀ p, K.locked (s.procs p) = true → s.sem = some p
  tables : Tables s

/-! ### Objects that change -/

section

variable (h : s.nodes n = some i)
include h

lemma obj_ref : (s.obj n).ref = i.refCount := by
  simp [State.obj, h]

lemma obj_opens : (s.obj n).opens = i.openCount := by
  simp [State.obj, h]

lemma obj_tickets : (s.obj n).tickets = i.reclaimCount := by
  simp [State.obj, h]

end

/-- An inode that is neither unmade nor dead. -/
lemma exists_node (h : s.stage n ≠ .unmade) (h' : s.stage n ≠ .dead) : ∃ i, s.nodes n = some i := by
  grind [State.stage]

lemma stage_ne_fresh (h : s.nodes n = none) : s.stage n ≠ .fresh := by grind [State.stage]

lemma mem_links_of_stage (h : s.stage n = .linked) : n ∈ s.links := by grind [State.stage]

lemma stage_of_mem_links (hn : s.nodes n = some i) (h : n ∈ s.links) : s.stage n = .linked := by
  grind [State.stage]

lemma info_eq (hi : s.nodes n = some i) : info s n = some i.info := by
  rw [info, hi, Option.map_some]

lemma info_setNode (hi : s.nodes n = some i) (j : Inode I) (hinfo : j.info = i.info) (m : ℕ) :
    info (s.setNode n j) m = info s m := by
  simp only [info, setNode_nodes]
  grind

lemma stage_congr (hnode : s'.nodes n = s.nodes n) (hlinks : n ∈ s'.links ↔ n ∈ s.links)
    (hnext : n < s'.next ↔ n < s.next) : s'.stage n = s.stage n := by
  simp only [State.stage, hnode, hlinks, hnext]

/-- The stages do not change with the counts of an inode that keeps its place. -/
lemma stage_setNode (j : Inode I) (hi : s.nodes n = some i)
    (hstage : n ∈ s.links ∨ j.reclaimCount = i.reclaimCount) (m : ℕ) : (s.setNode n j).stage m = s.stage m := by
  simp only [State.stage, setNode_nodes]
  grind [State.setNode]

/-- An inode that does not change. -/
lemma obj_congr (hnode : s'.nodes n = s.nodes n) (hlinks : n ∈ s'.links ↔ n ∈ s.links)
    (hnext : n < s'.next ↔ n < s.next) (hheld : s'.held n = s.held n) (hkills : s'.kills n = s.kills n)
    (hkept : s'.kept n = s.kept n) : s'.obj n = s.obj n := by grind [State.obj, stage_congr]

lemma cache_obj (K : Control C) (hi : s.nodes n = some i) : (s.cache K).obj n =
    ⟨i.refCount, i.openCount, i.reclaimCount, s.held n, s.kills n, s.stage n, s.kept n⟩ := by
  simp only [State.cache, State.obj, hi, Option.elim_some]

lemma cache_carry (p : ℕ) : (s.cache K).carry p = K.carry (s.procs p) := rfl

namespace Inv

/-- One inode and one process change. -/
lemma put (hs : Inv K s) (hlocked : K.locked pc = true → s.sem = some p)
    (hobj : ∀ m, m ≠ n → s'.obj m = s.obj m)
    (hstep : Step (s.cache K) ((s.cache K).put p n (s'.obj n) (K.act pc) (K.carry pc)))
    (htables : Tables s') (hprocs : s'.procs = update s.procs p pc) (hsem : s'.sem = s.sem) : Inv K s' := by
  have hproc : ∀ q, s'.procs q = if q = p then pc else s.procs q := fun q => by
    rw [hprocs, update_apply]
  have hcache : s'.cache K = (s.cache K).put p n (s'.obj n) (K.act pc) (K.carry pc) := by
    simp only [State.cache, Cache.put, Cache.mk.injEq]
    refine ⟨?_, hsem, ?_, ?_⟩ <;> funext m <;> rw [update_apply] <;> grind
  exact ⟨hcache ▸ hstep.inv hs.cache, fun q hq => by grind [hs.sem], htables⟩

/-- A process goes on, and does with inodes what it did before. -/
lemma cache_setPc (sem : Option ℕ) (hp : s.procs p = pc₀) (hact : K.act pc = K.act pc₀)
    (hcarry : K.carry pc = K.carry pc₀) :
    (State.setPc { s with sem := sem } p pc).cache K = { s.cache K with owner := sem } := by
  simp only [State.cache, setPc_procs, Cache.mk.injEq]
  exact ⟨rfl, rfl, by grind, by grind⟩

variable (hs : Inv K s)
include hs

lemma setPc (hp : s.procs p = pc₀) (hact : K.act pc = K.act pc₀)
    (hcarry : K.carry pc = K.carry pc₀) (hlocked : K.locked pc = K.locked pc₀) : Inv K (s.setPc p pc) where
  cache := (cache_setPc s.sem hp hact hcarry) ▸ hs.cache
  sem := fun q hq => by grind [hs.sem, State.setPc]
  tables := { hs.tables with }

/-- `down` of a semaphore that is free. -/
lemma down (hsem : s.sem = none) (hp : s.procs p = pc₀)
    (hact : K.act pc = K.act pc₀) (hcarry : K.carry pc = K.carry pc₀) :
    Inv K (State.setPc { s with sem := some p } p pc) where
  cache := (cache_setPc _ hp hact hcarry) ▸ (Step.lock p hsem).inv hs.cache
  sem := fun q hq => by grind [hs.sem, State.setPc]
  tables := { hs.tables with }

section

variable (hsem : s.sem = some p) (hp : s.procs p = pc₀)
include hsem hp

/-- `up`, by a process that goes on to a place where it does not need the semaphore. -/
lemma up (hact : K.act pc = K.act pc₀) (hcarry : K.carry pc = K.carry pc₀) (hlocked : K.locked pc = false)
    (hfree : ∀ k m, K.act pc₀ = some (k, m) → ¬k.Locked) : Inv K (State.setPc { s with sem := none } p pc) where
  cache := (cache_setPc _ hp hact hcarry) ▸ (Step.unlock p hsem fun k m h => hfree k m (hp ▸ h)).inv hs.cache
  sem := fun q hq => by grind [hs.sem]
  tables := { hs.tables with }

/-- A process finds an inode in the lists. -/
lemma find (hn : n ∈ s.links) (hact : K.act pc₀ = none) (hpc : K.act pc = some (.found, n))
    (hcarry : K.carry pc = K.carry pc₀) : Inv K (s.setPc p pc) := by
  subst hp
  obtain ⟨i, hi⟩ := hs.tables.allocated n hn
  refine hs.put (n := n) (fun _ => hsem) (fun _ _ => rfl) ?_ { hs.tables with } rfl rfl
  rw [hpc, hcarry]
  exact Step.find p n hsem hact (stage_of_mem_links hi hn)

end

/-- The inode that a process is doing something with is there. -/
lemma exists_node {k : Kind} (hact : K.act (s.procs p) = some (k, n)) : ∃ i, s.nodes n = some i := by
  have hin : k.In (s.stage n) := (hs.cache.obj n).stage_of_pos (hs.cache.count_pos hact)
  refine Inodes.exists_node (fun h => ?_) fun h => ?_ <;> rw [h] at hin <;> cases k <;>
    simp [Kind.In] at hin

/-- An inode to which somebody has a reference is there. -/
lemma exists_node_of_ref (href : 0 < (s.obj n).ref) :
    ∃ i, s.nodes n = some i ∧ (s.obj n).ref = i.refCount ∧ (s.stage n = .fresh ∨ s.stage n = .linked) := by
  have hin : s.stage n = .fresh ∨ s.stage n = .linked := (hs.cache.obj n).stage_of_ref href
  obtain ⟨i, hi⟩ := Inodes.exists_node (s := s) (n := n) (by grind) (by grind)
  exact ⟨i, hi, obj_ref hi, hin⟩

lemma exists_node_of_carry (hcarry : n ∈ K.carry (s.procs p)) :
    ∃ i, s.nodes n = some i ∧ 0 < i.refCount ∧ (s.stage n = .fresh ∨ s.stage n = .linked) := by
  have hpos := hs.cache.carried_pos hcarry
  have href : (s.obj n).ref = s.held n + (s.cache K).carried n := (hs.cache.obj n).ref
  obtain ⟨i, hi, hEq, hin⟩ := hs.exists_node_of_ref (n := n) (by omega)
  exact ⟨i, hi, by omega, hin⟩

/-- An inode to which the users have references is there. -/
lemma exists_node_of_held (hheld : 0 < s.held n) : ∃ i, s.nodes n = some i ∧ s.held n ≤ i.refCount := by
  have href : (s.obj n).ref = s.held n + (s.cache K).carried n := (hs.cache.obj n).ref
  obtain ⟨i, hi, hEq, -⟩ := hs.exists_node_of_ref (n := n) (by omega)
  exact ⟨i, hi, by omega⟩

section

variable (hi : s.nodes n = some i)
include hi

lemma opened_eq : s.opened n = i.openCount := by
  rw [hs.tables.opened n, obj_opens hi]

/-- One inode and one process change, the inode keeps its place. -/
lemma putNode {o : Obj} {a : Option (Kind × ℕ)} {t : Finset ℕ} (j : Inode I) (held opened : ℕ) (kept : Bool)
    (hstep : Step (s.cache K) ((s.cache K).put p n o a t)) (hpc : K.act pc = a) (hcarry : K.carry pc = t)
    (hlocked : K.locked pc = true → s.sem = some p) (hopen : s.opened n = i.openCount → opened = j.openCount)
    (hstage : n ∈ s.links ∨ j.reclaimCount = i.reclaimCount)
    (hput : s' = State.setPc { s.setNode n j with
      held := update s.held n held
      opened := update s.opened n opened
      kept := update s.kept n kept } p pc ∧
      o = ⟨j.refCount, j.openCount, j.reclaimCount, held, s.kills n, s.stage n, kept⟩) :
    Inv K s' := by
  obtain ⟨hs', hobj⟩ := hput
  have hnode : ∀ m, s'.nodes m = if m = n then some j else s.nodes m := fun m =>
    hs' ▸ setNode_nodes s n m j
  have hopened : ∀ m, s'.opened m = if m = n then opened else s.opened m := fun m =>
    hs' ▸ update_apply ..
  have hrest : s'.links = s.links ∧ s'.next = s.next ∧ s'.procs = update s.procs p pc ∧
      s'.sem = s.sem ∧ s'.kills = s.kills ∧ s'.stage n = s.stage n := by
    rw [hs', ← stage_setNode j hi hstage n]
    exact ⟨rfl, rfl, rfl, rfl, rfl, rfl⟩
  have hkept : ∀ m, s'.held m = (if m = n then held else s.held m) ∧
      s'.kept m = if m = n then kept else s.kept m := fun m => by
    rw [hs']
    exact ⟨update_apply .., update_apply ..⟩
  obtain ⟨hlinks, hnext, hprocs, hsem, hkills, hst⟩ := hrest
  have hself : s'.obj n = o := by simp [State.obj, hnode, hst, hkills, hkept, hobj]
  subst hpc hcarry
  refine hs.put hlocked (fun m hm => ?_) (hself ▸ hstep) ⟨hlinks ▸ hs.tables.nodup, fun m hm => ?_,
    fun m k hm => ?_, fun m => ?_⟩ hprocs hsem
  · apply obj_congr <;> simp [hnode, hlinks, hnext, hkills, hkept, hm]
  · rw [hnode]
    split_ifs
    exacts [⟨j, rfl⟩, hs.tables.allocated m (hlinks ▸ hm)]
  · rw [hnode] at hm
    rw [hnext]
    split_ifs at hm with h
    exacts [h ▸ hs.tables.below n i hi, hs.tables.below m k hm]
  · have hm := hs.tables.opened m
    have hn := hopen (hs.opened_eq hi)
    simp only [State.obj, hnode, hopened] at hm ⊢
    grind

/-- The part of an inode that belongs to the file system changes. -/
lemma setInfo (info : I) : Inv K (s.setNode n { i with info := info }) := by
  have hobj : (s.setNode n { i with info := info }).obj = s.obj := by
    funext m
    have hst := stage_setNode { i with info := info } hi (.inr rfl) m
    simp only [State.obj, hst, setNode_nodes]
    grind [State.setNode]
  have hcache : (s.setNode n { i with info := info }).cache K = s.cache K := by
    rw [State.cache, hobj]
    rfl
  refine ⟨hcache ▸ hs.cache, hs.sem, hs.tables.nodup, fun m hm => ?_, fun m k hm => ?_, fun m => ?_⟩
  · rw [setNode_nodes]
    split_ifs
    exacts [⟨_, rfl⟩, hs.tables.allocated m hm]
  · rw [setNode_nodes] at hm
    split_ifs at hm with h
    exacts [h ▸ hs.tables.below n i hi, hs.tables.below m k hm]
  · rw [hobj]
    exact hs.tables.opened m

section

variable (hact : K.act (s.procs p) = none)
include hact

/-- The users take another reference. -/
lemma copy (hheld : 0 < s.held n) : Inv K { s.setNode n { i with refCount := i.refCount + 1 } with
      held := update s.held n (s.held n + 1) } := by
  exact hs.putNode hi { i with refCount := i.refCount + 1 } (s.held n + 1) (s.opened n) (s.kept n)
    (.copy p n hact hheld) hact rfl (hs.sem p) id (.inr rfl) (by simp [State.setNode, State.setPc, cache_obj _ hi])

/-- The users open the inode. -/
lemma openRef (hheld : s.opened n < s.held n) : Inv K { s.setNode n { i with openCount := i.openCount + 1 } with
      opened := update s.opened n (s.opened n + 1) } := by
  exact hs.putNode hi { i with openCount := i.openCount + 1 } (s.held n) (s.opened n + 1) (s.kept n)
    (.opened p n hact (hs.tables.opened n ▸ hheld)) hact rfl (hs.sem p) (congrArg (· + 1)) (.inr rfl)
    (by simp [State.setNode, State.setPc, cache_obj _ hi])

/-- The users close the inode. -/
lemma closeRef (hopened : 0 < s.opened n) : Inv K { s.setNode n { i with openCount := i.openCount - 1 } with
      opened := update s.opened n (s.opened n - 1) } := by
  exact hs.putNode hi { i with openCount := i.openCount - 1 } (s.held n) (s.opened n - 1) (s.kept n)
    (.closed p n hact (hs.tables.opened n ▸ hopened)) hact rfl (hs.sem p) (congrArg (· - 1)) (.inr rfl)
    (by simp [State.setNode, State.setPc, cache_obj _ hi])

end

variable (hp : s.procs p = pc₀)
include hp

/-- A process takes a reference to an inode that it has found. -/
lemma take (hn : n ∉ K.carry pc₀)
    (hpc : K.act pc = if i.refCount = 0 then some (.raised, n) else none)
    (hcarry : K.carry pc = insert n (K.carry pc₀)) (hact : K.act pc₀ = some (.found, n)) :
    Inv K (State.setPc { s.setNode n { i with refCount := i.refCount + 1 } with
      kept := update s.kept n false } p pc) := by
  subst hp
  exact hs.putNode hi { i with refCount := i.refCount + 1 } (s.held n) (s.opened n) false (.take p n hact hn)
    (by rw [hpc, cache_obj K hi]) hcarry (fun _ => hs.cache.lock p .found n hact trivial) id (.inr rfl)
    (by simp [State.setNode, cache_obj _ hi])

/-- A process drops its own reference. -/
lemma dropOwn (hn : n ∈ K.carry pc₀)
    (hpc : K.act pc = if i.refCount = 1 then some (.waits, n) else none)
    (hcarry : K.carry pc = (K.carry pc₀).erase n) (hlocked : K.locked pc = true → s.sem = some p)
    (hact : K.act pc₀ = none) : Inv K ((s.setNode n { i with refCount := i.refCount - 1 }).setPc p pc) := by
  subst hp
  exact hs.putNode hi { i with refCount := i.refCount - 1 } (s.held n) (s.opened n) (s.kept n)
    (.dropOwn p n hact hn) (by rw [hpc, Revival.dropped, cache_obj K hi]) hcarry hlocked id (.inr rfl)
    (by simp [State.setNode, cache_obj _ hi])

variable (hcarry : K.carry pc = K.carry pc₀)
include hcarry

/-- `reclaim_count ++`. -/
lemma ticket (hact : K.act pc₀ = some (.raised, n)) (hpc : K.act pc = none) :
    Inv K ((s.setNode n { i with reclaimCount := i.reclaimCount + 1 }).setPc p pc) := by
  subst hp
  have hstage : s.stage n = .linked := (hs.cache.obj n).stage_of_pos (hs.cache.count_pos hact)
  exact hs.putNode hi { i with reclaimCount := i.reclaimCount + 1 } (s.held n) (s.opened n) (s.kept n)
    (.ticket p n hact) hpc hcarry (fun _ => hs.cache.lock p .raised n hact trivial) id
    (.inl (mem_links_of_stage hstage)) (by simp [State.setNode, cache_obj _ hi])

/-- `-- reclaim_count`. -/
lemma give (hsem : s.sem = some p) (hn : n ∈ s.links)
    (hpc : K.act pc = if i.reclaimCount = 1 then some (.last, n) else none) (hact : K.act pc₀ = some (.waits, n)) :
    Inv K ((s.setNode n { i with reclaimCount := i.reclaimCount - 1 }).setPc p pc) := by
  subst hp
  exact hs.putNode hi { i with reclaimCount := i.reclaimCount - 1 } (s.held n) (s.opened n) (s.kept n)
    (.give p n hsem hact (stage_of_mem_links hi hn)) (by rw [hpc, cache_obj K hi]) hcarry (fun _ => hsem) id (.inl hn)
    (by simp [State.setNode, cache_obj _ hi])

/-- The inode is kept. -/
lemma keep (hact : K.act pc₀ = some (.last, n)) (hpc : K.act pc = none) :
    Inv K (State.setPc { s with kept := update s.kept n true } p pc) := by
  subst hp
  exact hs.putNode hi i (s.held n) (s.opened n) true (.keep p n hact) hpc hcarry
    (fun _ => hs.cache.lock p .last n hact trivial) id (.inr rfl) (by simp [State.setNode, ← hi, cache_obj _ hi])

/-- A reference of the users is dropped. -/
lemma drop (hheld : s.opened n < s.held n)
    (hpc : K.act pc = if i.refCount = 1 then some (.waits, n) else none)
    (hlocked : K.locked pc = false) (hact : K.act pc₀ = none) :
    Inv K (State.setPc { s.setNode n { i with refCount := i.refCount - 1 } with
      held := update s.held n (s.held n - 1) } p pc) := by
  subst hp
  exact hs.putNode hi { i with refCount := i.refCount - 1 } (s.held n - 1) (s.opened n) (s.kept n)
    (.drop p n hact (hs.tables.opened n ▸ hheld)) (by rw [hpc, Revival.dropped, cache_obj K hi]) hcarry
    (by simp [hlocked]) id (.inr rfl) (by simp [State.setNode, cache_obj _ hi])

end

lemma notMem_next : s.next ∉ s.links := fun hmem => by
  obtain ⟨i, hi⟩ := hs.tables.allocated s.next hmem
  exact lt_irrefl _ (hs.tables.below s.next i hi)

/-- A process that comes to destroy an inode has a ticket to give back, and nobody has an inode whose
last ticket is given back. -/
lemma reclaimCount_pos (hi : s.nodes n = some i) (hsem : s.sem = some p)
    (hact : K.act (s.procs p) = some (.waits, n)) (hn : n ∈ s.links) :
    0 < i.reclaimCount ∧ (i.reclaimCount = 1 → i.refCount = 0 ∧ i.openCount = 0) := by
  have hstage := stage_of_mem_links hi hn
  have hpos : 0 < (s.obj n).tickets := hs.cache.tickets_pos hsem hact hstage
  have hwaits := hs.cache.count_pos hact
  have hfree := hs.cache.free hsem
    (fun k m h => by rw [show (s.cache K).act p = _ from hact] at h; cases h; exact id) n
  have hholds := (hs.cache.obj n).of_stage hstage
  have hopens := (hs.cache.obj n).opens
  have href := (hs.cache.obj n).ref
  simp only [Stage.Holds, cache_obj K hi] at hholds hopens href
  omega

variable (hp : s.procs p = pc₀)
include hp

/-- The reference of a process becomes one of the users. -/
lemma settle (hn : K.carry pc₀ = {n}) (hact : K.act pc₀ = none) (hpc : K.act pc = none)
    (hcarry : K.carry pc = ∅) (hlocked : K.locked pc = false) : Inv K ((returnRef s n).setPc p pc) := by
  subst hp
  have hmem : n ∈ K.carry (s.procs p) := hn ▸ Finset.mem_singleton_self n
  obtain ⟨i, hi, -⟩ := hs.exists_node_of_carry hmem
  exact hs.putNode hi i (s.held n + 1) (s.opened n) (s.kept n) (.settle p n hact hmem) hpc
    (by rw [hcarry, cache_carry, hn, Finset.erase_singleton]) (by simp [hlocked]) id (.inr rfl)
    (by simp [State.setNode, State.setPc, returnRef, ← hi, cache_obj _ hi])

/-- An inode comes into being. -/
lemma make (info : I) (hlocked : K.locked pc = true → s.sem = some p) (hact : K.act pc₀ = none)
    (hpc : K.act pc = none) (hcarry : K.carry pc = insert s.next (K.carry pc₀)) :
    Inv K ((allocInode s info).setPc p pc) := by
  subst hp
  have hnone : s.nodes s.next = none := by
    cases hn : s.nodes s.next with
    | none => rfl
    | some i => exact absurd (hs.tables.below s.next i hn) (lt_irrefl _)
  have hnot := hs.notMem_next
  have hstage : s.stage s.next = .unmade := by simp [State.stage, hnone]
  obtain ⟨hzero, -, hkills⟩ := (hs.cache.obj s.next).of_stage hstage
  have hpool : s.held s.next = 0 := by
    have href := (hs.cache.obj s.next).ref
    rw [hzero] at href
    exact (Nat.add_eq_zero_iff.mp href.symm).1
  have hnode : ∀ m, ((allocInode s info).setPc p pc).nodes m =
      if m = s.next then some ⟨1, 0, 1, info⟩ else s.nodes m := fun m => setNode_nodes ..
  refine hs.put (n := s.next) hlocked (fun m hm => ?_) ?_ ⟨hs.tables.nodup, fun m hm => ?_, fun m k hm => ?_,
    fun m => ?_⟩ rfl rfl
  · refine obj_congr (by rw [hnode, if_neg hm]) Iff.rfl ?_ rfl rfl rfl
    show m < s.next + 1 ↔ m < s.next
    omega
  · have hobj : ((allocInode s info).setPc p pc).obj s.next =
        ⟨1, 0, 1, 0, 0, .fresh, s.kept s.next⟩ := by
      simp [State.obj, State.stage, allocInode, State.setPc, State.setNode, hnot, hpool,
        show s.kills s.next = 0 from hkills]
    rw [hobj, hpc, hcarry]
    exact Step.make p s.next (s.kept s.next) hact hstage
  · rw [hnode, if_neg fun h : m = s.next => hnot (h ▸ hm)]
    exact hs.tables.allocated m hm
  · rw [hnode] at hm
    show m < s.next + 1
    split_ifs at hm with h
    · omega
    · exact Nat.lt_succ_of_lt (hs.tables.below m k hm)
  · have hopened := hs.tables.opened m
    simp only [State.obj, hnode] at hopened ⊢
    show s.opened m = _
    grind

variable (hcarry : K.carry pc = K.carry pc₀)
include hcarry

/-- An inode comes into the lists. -/
lemma link (hsem : s.sem = some p) (hn : n ∈ K.carry pc₀) (hstage : s.stage n = .fresh)
    (hact : K.act pc₀ = none) (hpc : K.act pc = none) : Inv K (State.setPc { s with links := n :: s.links } p pc) := by
  subst hp
  obtain ⟨i, hi⟩ := Inodes.exists_node (s := s) (n := n) (by simp [hstage]) (by simp [hstage])
  have hnot : n ∉ s.links := by grind [stage_of_mem_links]
  have hst : (State.setPc { s with links := n :: s.links } p pc).stage n = .linked :=
    stage_of_mem_links hi (.head _)
  refine hs.put (n := n) (fun _ => hsem) (fun m hm => ?_) ?_ ⟨nodup_cons.mpr ⟨hnot, hs.tables.nodup⟩,
    fun m hm => ?_, hs.tables.below, hs.tables.opened⟩ rfl rfl
  · exact obj_congr rfl (by simp [State.setPc, hm]) Iff.rfl rfl rfl rfl
  · rw [State.obj, hst, hpc, hcarry]
    exact Step.link p n hsem hact hn hstage
  · obtain rfl | hm := mem_cons.mp hm
    · exact ⟨i, hi⟩
    · exact hs.tables.allocated m hm

/-- The inode whose last ticket was given back is taken out of the lists. -/
lemma remove (hact : K.act pc₀ = some (.last, n)) (hpc : K.act pc = some (.dying, n)) :
    Inv K (State.setPc { s with links := s.links.erase n } p pc) := by
  subst hp
  obtain ⟨hstage, htickets, -, -⟩ := hs.cache.of_last hact
  obtain ⟨i, hi⟩ := hs.tables.allocated n (mem_links_of_stage hstage)
  have hst : (State.setPc { s with links := s.links.erase n } p pc).stage n = .removed := by
    have hcount : i.reclaimCount = 0 := (obj_tickets hi).symm.trans htickets
    simp [State.stage, State.setPc, hi, hcount, hs.tables.nodup.not_mem_erase]
  refine hs.put (n := n) (fun _ => hs.cache.lock p .last n hact trivial) (fun m hm => ?_) ?_
    ⟨hs.tables.nodup.erase n, fun m hm => hs.tables.allocated m (mem_of_mem_erase hm),
      hs.tables.below, hs.tables.opened⟩ rfl rfl
  · exact obj_congr rfl (mem_erase_of_ne hm) Iff.rfl rfl rfl rfl
  · rw [State.obj, hst, hpc, hcarry]
    exact Step.remove p n hact

/-- A process frees an inode that it has taken out of the lists, or that was never there. -/
lemma kill (hact : K.act pc₀ = some (.dying, n) ∨ K.act pc₀ = some (.waits, n) ∧ s.stage n = .fresh)
    (hpc : K.act pc = none) (hlocked : K.locked pc = K.locked pc₀) :
    ∃ s', inodeKill s n = .ok s' ∧ s' = { s with
      nodes := update s.nodes n none
      kills := update s.kills n (s.kills n + 1) } ∧ Inv K (s'.setPc p pc) := by
  subst hp
  -- nobody has the inode
  have hfree : s.stage n ≠ .unmade ∧ s.stage n ≠ .dead ∧ s.stage n ≠ .linked ∧ (s.obj n).ref = 0 ∧
      (s.obj n).opens = 0 := by
    obtain hact | ⟨hact, hfresh⟩ := hact
    · obtain ⟨hstage, href, hopen, -⟩ := hs.cache.of_dying hact
      replace hstage : s.stage n = .removed := hstage
      exact ⟨by simp [hstage], by simp [hstage], by simp [hstage], href, hopen⟩
    · obtain ⟨href, hopen, -⟩ := hs.cache.of_waits_fresh hact hfresh
      exact ⟨by simp [hfresh], by simp [hfresh], by simp [hfresh], href, hopen⟩
  obtain ⟨hmade, hdead, hlinked, href, hopen⟩ := hfree
  obtain ⟨i, hi⟩ := Inodes.exists_node hmade hdead
  have hnot : n ∉ s.links := fun hmem => hlinked (stage_of_mem_links hi hmem)
  rw [obj_ref hi] at href
  rw [obj_opens hi] at hopen
  have hnode : ∀ m, update s.nodes n none m = if m = n then none else s.nodes m := fun m =>
    update_apply ..
  refine ⟨_, ?_, rfl, hs.put (n := n) (fun h => hs.sem p (hlocked ▸ h)) (fun m hm => ?_) ?_
    ⟨hs.tables.nodup, fun m hm => ?_, fun m k hm => ?_, fun m => ?_⟩ rfl rfl⟩
  · simp only [inodeKill, State.node, hi, assert, href, hopen, if_true, ok_bind]
    rfl
  · exact obj_congr (update_of_ne hm _ _) Iff.rfl Iff.rfl rfl (update_of_ne hm _ _) rfl
  · have hobj : (State.setPc { s with
        nodes := update s.nodes n none
        kills := update s.kills n (s.kills n + 1) } p pc).obj n =
        { s.obj n with tickets := 0, stage := .dead, killed := (s.obj n).killed + 1 } := by
      simp [State.obj, State.stage, State.setPc, hi, href, hopen, hs.tables.below n i hi]
    rw [hobj, hpc, hcarry]
    obtain hact | ⟨hact, hfresh⟩ := hact
    exacts [Step.kill p n hact, Step.killFresh p n hact hfresh]
  · show ∃ i, update s.nodes n none m = some i
    rw [hnode, if_neg fun h : m = n => hnot (h ▸ hm)]
    exact hs.tables.allocated m hm
  · change update s.nodes n none m = some k at hm
    rw [hnode] at hm
    split_ifs at hm
    exact hs.tables.below m k hm
  · have hopened := hs.tables.opened m
    simp only [State.obj, State.setPc, hnode] at hopened ⊢
    grind

end Inv

/-! ### What the users do -/

/-- The processes, the lists and the stages of the inodes are the same. -/
structure Same (s s' : State I C) : Prop where
  procs : s'.procs = s.procs
  links : s'.links = s.links
  next : s'.next = s.next
  stage : ∀ n, s'.stage n = s.stage n

/-- The part of the inodes that belongs to the file system is the same as well. -/
structure SameInfo (s s' : State I C) : Prop extends Same s s' where
  info : ∀ n, info s' n = info s n

/-- The counts of an inode change, and it keeps its place. -/
lemma SameInfo.setNode (hi : s.nodes n = some i) (hinfo : j.info = i.info)
    (hcount : j.reclaimCount = i.reclaimCount) (hprocs : s'.procs = s.procs)
    (hlinks : s'.links = s.links) (hnext : s'.next = s.next)
    (hnodes : s'.nodes = (s.setNode n j).nodes) : SameInfo s s' := by
  refine ⟨⟨hprocs, hlinks, hnext, fun m => ?_⟩, fun m => ?_⟩
  · rw [← stage_setNode j hi (.inr hcount) m]
    exact stage_congr (by rw [hnodes]) (by rw [hlinks]; rfl) (by rw [hnext]; rfl)
  · rw [← info_setNode hi j hinfo m, Inodes.info, Inodes.info, hnodes]

namespace Inv

variable (hs : Inv K s) (hact : K.act (s.procs p) = none)
include hs hact

/-- The users take another reference. -/
lemma copyRef_spec (hheld : 0 < s.held n) : ∃ s', copyRef s n = .ok s' ∧ Inv K s' ∧ SameInfo s s' := by
  obtain ⟨i, hi, -⟩ := hs.exists_node_of_held hheld
  refine ⟨_, ?_, hs.copy hi hact hheld,
    SameInfo.setNode (j := { i with refCount := i.refCount + 1 }) hi rfl rfl rfl rfl rfl rfl⟩
  simp only [copyRef, inodeRefInc, State.node, hi, ok_bind]
  rfl

/-- The users open the inode. -/
lemma openRef_spec (hheld : s.opened n < s.held n) :
    ∃ s', Inodes.openRef s n = .ok s' ∧ Inv K s' ∧ SameInfo s s' := by
  obtain ⟨i, hi, -⟩ := hs.exists_node_of_held (Nat.zero_lt_of_lt hheld)
  refine ⟨_, ?_, hs.openRef hi hact hheld,
    SameInfo.setNode (j := { i with openCount := i.openCount + 1 }) hi rfl rfl rfl rfl rfl rfl⟩
  simp only [Inodes.openRef, inodeOpenInc, State.node, hi, ok_bind]
  rfl

/-- The users close the inode. -/
lemma closeRef_spec (hopened : 0 < s.opened n) :
    ∃ s', Inodes.closeRef s n = .ok s' ∧ Inv K s' ∧ SameInfo s s' := by
  have hle : (s.obj n).opens ≤ s.held n := (hs.cache.obj n).opens
  have hopens := hs.tables.opened n
  obtain ⟨i, hi, -⟩ := hs.exists_node_of_held (n := n) (by omega)
  have hopen : 0 < i.openCount := hs.opened_eq hi ▸ hopened
  refine ⟨_, ?_, hs.closeRef hi hact hopened,
    SameInfo.setNode (j := { i with openCount := i.openCount - 1 }) hi rfl rfl rfl rfl rfl rfl⟩
  simp only [Inodes.closeRef, inodeOpenDec, State.node, hi, assert, hopen, if_true, ok_bind]
  rfl

end Inv

/-- A reference is dropped. -/
lemma inodeRefDec_eq (hi : s.nodes n = some i) (hpos : 0 < i.refCount) : inodeRefDec s n =
      .ok (i.refCount - 1, s.setNode n { i with refCount := i.refCount - 1 }) := by
  simp only [inodeRefDec, State.node, hi, assert, hpos, if_true, ok_bind]
  rfl

lemma sub_one_eq_zero {k : ℕ} (hk : 0 < k) : (k - 1 = 0) = (k = 1) := by
  rw [eq_iff_iff]
  omega

/-- A file system without inodes, in which no process does anything. -/
lemma inv_empty (hact : K.act pc = none) (hcarry : K.carry pc = ∅) (hlocked : K.locked pc = false) :
    Inv K (⟨fun _ => none, [], none, fun _ => pc, 0, fun _ => 0, fun _ => 0, fun _ => 0,
      fun _ => false⟩ : State I C) where
  cache := by
    generalize hc : State.cache K _ = c
    have hact' : ∀ p, c.act p = none := fun p => by simp [← hc, State.cache, hact]
    have hcarry' : ∀ p, c.carry p = ∅ := fun p => by simp [← hc, State.cache, hcarry]
    refine ⟨by simp [hact'], by simp [hcarry'], by simp [hact'], fun n => ?_⟩
    have hcount : ∀ k, c.count n k = 0 := fun k => Tally.tally_eq_zero fun p => by simp [hact']
    have hcarried : c.carried n = 0 := Tally.tally_eq_zero fun p => by simp [hcarry']
    subst hc
    exact ⟨by rw [hcarried]; rfl, le_rfl, by simp [hcount], rfl, hcount, rfl⟩
  sem := fun p h => by grind
  tables := ⟨nodup_nil, nofun, nofun, fun n => rfl⟩

end UcoreKernel.Inodes
