import UcoreKernel.Fs.PipeInode
import UcoreKernel.Fs.Sfs.InodeCache

/-!
When an inode is destroyed: what the invariants of the two caches of inodes say about a run.
-/

namespace UcoreKernel.Inodes

open Revival (Kind Stage)

variable {I C : Type} {K : Control C} {s s' : State I C} {p n : ℕ}

/-- Nobody has a reference to an inode, and the only process that does something with it is the one
that drops it. -/
structure Unused (K : Control C) (s : State I C) (p n : ℕ) : Prop where
  counts : ∃ i, s.nodes n = some i ∧ i.refCount = 0 ∧ i.openCount = 0
  users : s.held n = 0 ∧ s.opened n = 0
  carries : ∀ q, n ∉ K.carry (s.procs q)
  alone : ∀ q k, K.act (s.procs q) = some (k, n) → q = p

/-- No inode is destroyed twice, and one that is not used is destroyed or kept after an error, unless a
process is still doing something with it. The count of an inode that was not taken out of the lists is
the number of processes that have dropped the last reference and have not yet lowered the count, and
one more while there are references; a lookup that has taken the first reference has yet to raise it. -/
structure Reclaims (K : Control C) (s : State I C) : Prop where
  once : ∀ n, s.kills n ≤ 1
  freed : ∀ n, s.kills n = 1 → s.nodes n = none
  count : ∀ n i, s.nodes n = some i → s.stage n ≠ .removed →
    i.reclaimCount + (s.cache K).count n .raised =
      (s.cache K).count n .waits + if 0 < i.refCount then 1 else 0
  between : s.sem = none → ∀ n i, s.nodes n = some i → n ∈ s.links →
    i.reclaimCount = {p | ∃ k, K.act (s.procs p) = some (k, n)}.ncard + if 0 < i.refCount then 1 else 0
  dropped : ∀ n, n < s.next → (∀ i, s.nodes n = some i → i.refCount = 0) → s.kept n = false →
    s.kills n = 1 ∨ ∃ p k, K.act (s.procs p) = some (k, n)

/-- The step destroys no inode, or one that is not used. -/
def Destroys (K : Control C) (s s' : State I C) : Prop :=
  s'.kills = s.kills ∨
    ∃ p n, Unused K s p n ∧ s'.kills = Function.update s.kills n (s.kills n + 1)

namespace Inv

variable (hs : Inv K s)
include hs

lemma unused {k : Kind} (hact : K.act (s.procs p) = some (k, n))
    (href : ((s.cache K).obj n).ref = 0) (hopen : ((s.cache K).obj n).opens = 0)
    (hcarry : ∀ q, n ∉ K.carry (s.procs q)) (halone : ∀ q k, K.act (s.procs q) = some (k, n) → q = p) :
    Unused K s p n := by
  obtain ⟨i, hi⟩ := hs.exists_node hact
  have hpool := (hs.cache.obj n).ref
  refine ⟨⟨i, hi, (obj_ref hi).symm.trans href, (obj_opens hi).symm.trans hopen⟩, ⟨?_, ?_⟩, hcarry, halone⟩
  · show ((s.cache K).obj n).pool = 0
    omega
  · rw [hs.tables.opened n]
    exact hopen

lemma unused_of_dying (hact : K.act (s.procs p) = some (.dying, n)) : Unused K s p n := by
  obtain ⟨-, href, hopen, -, hcarry, halone⟩ := hs.cache.of_dying hact
  exact hs.unused hact href hopen hcarry halone

lemma unused_of_waits_fresh (hact : K.act (s.procs p) = some (.waits, n))
    (hfresh : s.stage n = .fresh) : Unused K s p n := by
  obtain ⟨href, hopen, -, hcarry, halone⟩ := hs.cache.of_waits_fresh hact hfresh
  exact hs.unused hact href hopen hcarry halone

/-- What the invariant says about destroyed inodes and about `reclaim_count`. -/
lemma reclaims : Reclaims K s := by
  constructor
  case once => exact fun n => hs.cache.killed_le_one n
  case freed =>
    intro n hkills
    by_contra hnone
    obtain ⟨i, hi⟩ := Option.ne_none_iff_exists'.mp hnone
    have hkilled : ((s.cache K).obj n).killed = 1 := hkills
    have hstage := (hs.cache.obj n).stage
    -- only an inode that is no longer there was destroyed
    cases hst : s.stage n with
    | dead => grind [State.stage]
    | _ =>
      rw [show ((s.cache K).obj n).stage = _ from hst] at hstage
      rw [Stage.Holds] at hstage
      omega
  case count =>
    intro n i hi hstage
    have hin : Kind.waits.In ((s.cache K).obj n).stage := by
      show s.stage n = .fresh ∨ s.stage n = .linked
      grind [State.stage]
    have heq := hs.cache.tickets_eq hin
    rwa [show ((s.cache K).obj n).tickets = _ from obj_tickets hi,
      show ((s.cache K).obj n).ref = _ from obj_ref hi] at heq
  case between =>
    intro hsem n i hi hn
    have hlinked : ((s.cache K).obj n).stage = .linked := stage_of_mem_links hi hn
    have hnone : ∀ q k, K.act (s.procs q) = some (k, n) → k = .waits := by
      intro q k hq
      have hfree : ¬k.Locked := fun hk => by
        have howner : s.sem = some q := hs.cache.lock q k n hq hk
        rw [hsem] at howner
        cases howner
      have hin := (hs.cache.obj n).stage_of_pos (hs.cache.count_pos hq)
      cases k <;> simp_all [Kind.Locked, Kind.In]
    have hraised : (s.cache K).count n .raised = 0 :=
      Tally.tally_eq_zero fun q hq => Kind.noConfusion (hnone q .raised hq)
    have heq := hs.cache.tickets_eq (.inr hlinked)
    rw [show ((s.cache K).obj n).tickets = _ from obj_tickets hi,
      show ((s.cache K).obj n).ref = _ from obj_ref hi, hraised, add_zero] at heq
    rw [heq]
    have hset : {q | K.act (s.procs q) = some (.waits, n)} = {q | ∃ k, K.act (s.procs q) = some (k, n)} := by grind
    rw [← hset]
    rfl
  case dropped =>
    intro n hlt href hkept
    refine hs.cache.of_ref_eq_zero ?_ (fun h => ?_) hkept
    · cases hi : s.nodes n with
      | none => simp [State.cache, State.obj, hi]
      | some i => exact (obj_ref hi).trans (href i hi)
    · replace h : s.stage n = .unmade := h
      grind [State.stage]

end Inv

lemma destroys_ite {c : Prop} [Decidable c] {x : Except Panic (State I C)}
    (hx : Except.Ensures (fun _ => True) x (Recounted s)) :
    Except.Ensures (fun _ => True) (if c then x else .ok s) (Destroys K s) :=
  .ite (fun _ => hx.mono fun _ h => .inl h.2.2) fun _ => .inl rfl

end UcoreKernel.Inodes

/-! ### Steps that destroy -/

namespace UcoreKernel.SfsInodes

open UcoreKernel.Except (Ensures)
open Inodes

variable {s : State} {p n : ℕ}

lemma nextStep_destroys {ok : Bool} (hs : Inv s) :
    Ensures (fun _ => True) (nextStep s p ok) (Destroys control s) := by
  cases hp : s.procs p <;> rw [nextStep, hp]
  case reclaimKill n =>
    exact inodeKill_kills.bind fun s1 hkill =>
      .inr ⟨p, n, hs.inodes.unused_of_dying (hp ▸ rfl), hkill.2.2⟩
  case loadSearch ino =>
    refine .bind_any fun node => ?_
    cases node <;> exact .inl rfl
  case loadRef n => exact inodeRefInc_recounted.bind fun r hr => .inl hr.2.2
  case loadCount n => exact .bind_any fun i => .inl rfl
  case loadUnlock node =>
    cases node <;> exact .inl rfl
  case reclaimCount n =>
    exact .bind_any fun i => .bind_any fun _ => .ite (fun _ => .inl rfl) fun _ => .bind_any fun _ => .inl rfl
  case reclaimWrite n => exact .bind_any fun i => .ite (fun _ => .inl rfl) fun _ => .inl rfl
  case loadLock | createLock | reclaimLock | loadRead => exact .ite (fun _ => .inl rfl) fun _ => .inl rfl
  case idle | createLink | reclaimFailed | reclaimUnlock => exact .inl rfl

/-- A step destroys only an inode that is not used. -/
lemma step_destroys (e : Event) (hs : Inv s) : Ensures (fun _ => True) (step s e) (Destroys control s) := by
  cases e <;> rw [step]
  case load | create => exact .ite (fun _ => .inl rfl) fun _ => .inl rfl
  case refInc p n => exact destroys_ite copyRef_recounted
  case refDec p n =>
    exact .ite (fun _ => inodeRefDec_recounted.bind fun r hr => .inl hr.2.2) fun _ => .inl rfl
  case openInc p n => exact destroys_ite openRef_recounted
  case openDec p n => exact destroys_ite closeRef_recounted
  case change p n nlinks dirty => exact .ite (fun _ => .bind_any fun i => .inl rfl) fun _ => .inl rfl
  case next p ok => exact nextStep_destroys hs

end UcoreKernel.SfsInodes

namespace UcoreKernel.PipeInodes

open UcoreKernel.Except (Ensures)
open Inodes

variable {s : State} {p n : ℕ}

lemma dropOwn_destroys {stop next : Pc} :
    Ensures (fun _ => True) (dropOwn s p n stop next) (Destroys control s) :=
  inodeRefDec_recounted.bind fun _ hr => .inl hr.2.2

lemma afterWalk_destroys {w : Walk} {ok : Bool} :
    Ensures (fun _ => True) (afterWalk s p w ok) (Destroys control s) := by
  cases hcall : w.call <;> cases hnode : w.store w.readonly <;> rw [afterWalk, hcall, hnode]
  case lookup.none | lookup.some => exact .inl rfl
  case create.some excl n => exact .ite (fun _ => dropOwn_destroys) fun _ => .inl rfl
  case create.none excl => exact .ite (fun _ => .inl rfl) fun _ => .inl rfl

lemma nextStep_destroys {ok : Bool} (hs : Inv s) :
    Ensures (fun _ => True) (nextStep s p ok) (Destroys control s) := by
  cases hp : s.procs p <;> simp only [nextStep, hp]
  case reclaimKill n ret =>
    exact inodeKill_kills.bind fun s1 hkill =>
      .inr ⟨p, n, hs.inodes.unused_of_dying (hp ▸ rfl), hkill.2.2⟩
  case reclaim n ret =>
    have hact : control.act (s.procs p) = some (.waits, n) := by rw [hp]; rfl
    obtain ⟨i, hi⟩ := hs.inodes.exists_node hact
    rw [State.node, hi]
    refine .ite (fun hname => inodeKill_kills.bind fun s1 hkill => ?_) fun _ =>
      .ite (fun _ => .inl rfl) fun _ => .inl rfl
    have hfresh := (hs.names.named n i.info (info_eq hi)).mp hname
    exact .inr ⟨p, n, hs.inodes.unused_of_waits_fresh hact hfresh, hkill.2.2⟩
  case walk w todo =>
    cases todo with
    | nil => exact .inl rfl
    | cons n todo => exact .bind_any fun i => .ite (fun _ => .bind_any fun _ => .inl rfl) fun _ => .inl rfl
  case walkRef w n todo => exact .bind_any fun i => inodeRefInc_recounted.bind fun r hr => .inl hr.2.2
  case walkCount w n todo => exact .bind_any fun i => .inl rfl
  case found w => exact afterWalk_destroys
  case dropOther ret other =>
    cases other with
    | none => exact .inl rfl
    | some n => exact dropOwn_destroys
  case reclaimCount n ret =>
    exact .bind_any fun i => .bind_any fun _ => .ite (fun _ => .inl rfl) fun _ => .inl rfl
  case walkLock w => exact .ite (fun _ => .inl rfl) fun _ => .inl rfl
  case finish ret =>
    cases ret <;> exact .inl rfl
  case idle | stuck | unlock | reclaimRemove | reclaimBusy | reclaimUnlock => exact .inl rfl

/-- A step destroys only an inode that is not used. -/
lemma step_destroys (e : Event) (hs : Inv s) : Ensures (fun _ => True) (step s e) (Destroys control s) := by
  cases e <;> rw [step]
  case lookup | create | pipe => exact .ite (fun _ => .inl rfl) fun _ => .inl rfl
  case refInc p n => exact destroys_ite copyRef_recounted
  case refDec p n =>
    exact .ite (fun _ => inodeRefDec_recounted.bind fun r hr => .inl hr.2.2) fun _ => .inl rfl
  case openInc p n => exact destroys_ite openRef_recounted
  case openDec p n => exact destroys_ite closeRef_recounted
  case next p ok => exact nextStep_destroys hs

end UcoreKernel.PipeInodes

namespace UcoreKernel.Inodes

variable {I C : Type} {K : Control C}

/-- No step of a run fails, the states on the way are as `Reclaims` says, and a step destroys only an
inode that is not used. -/
def Protocol {E : Type} (K : Control C) (step : State I C → E → Except Panic (State I C))
    (s₀ : State I C) : Prop :=
  ∀ es : List E, ∃ s, es.foldlM step s₀ = .ok s ∧ Reclaims K s ∧
    ∀ e, ∃ s', step s e = .ok s' ∧ Destroys K s s'

lemma protocol_of_inv {E : Type} {step : State I C → E → Except Panic (State I C)} {s₀ : State I C}
    (Good : State I C → Prop) (hinv : ∀ s, Good s → Inv K s)
    (hstep : ∀ s e, Good s → ∃ s', step s e = .ok s' ∧ Good s')
    (hdestroys : ∀ s e, Good s → Except.Ensures (fun _ => True) (step s e) (Destroys K s)) (hs₀ : Good s₀) :
    Protocol K step s₀ := by
  intro es
  obtain ⟨s, hrun, hs⟩ := Guarded.exists_foldlM hstep hs₀ es
  refine ⟨s, hrun, (hinv s hs).reclaims, fun e => ?_⟩
  obtain ⟨s', he, -⟩ := hstep s e hs
  have hdestroy := hdestroys s e hs
  rw [he] at hdestroy
  exact ⟨s', he, hdestroy⟩

/-- The inodes of SFS and of pipes are destroyed only when they are not used, and only once, and
`reclaim_count` counts the processes that have come to destroy them. -/
theorem reclaim_protocol : Protocol SfsInodes.control SfsInodes.step SfsInodes.mounted ∧
      Protocol PipeInodes.control PipeInodes.step PipeInodes.pipeFsInit :=
  ⟨protocol_of_inv SfsInodes.Inv (fun _ hs => hs.inodes) (fun _ e hs => SfsInodes.step_spec hs e)
      (fun _ e hs => SfsInodes.step_destroys e hs) SfsInodes.inv_mounted,
    protocol_of_inv PipeInodes.Inv (fun _ hs => hs.inodes) (fun _ e hs => PipeInodes.step_spec hs e)
      (fun _ e hs => PipeInodes.step_destroys e hs) PipeInodes.inv_pipeFsInit⟩

end UcoreKernel.Inodes
