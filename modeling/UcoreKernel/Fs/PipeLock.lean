import UcoreKernel.Fs.PipeInode

/-!
The semaphore of the file system of pipes, and a process that waits for itself.

`pipe_root_create` with `excl` drops the reference to an inode that exists while it has the semaphore.
If that was the only reference, because the last user has dropped its own and has not yet come to the
semaphore, `pipe_inode_reclaim` is called and asks for the semaphore again.

* `relock_iff`: a run in which no process waits for itself is one in which every exclusive create of a
  name that is there finds another reference to it.
-/

namespace UcoreKernel.PipeInodes

open UcoreKernel.Except (Ensures)
open Inodes Guarded Function

variable {s s' : State} {p n : ℕ} {pc : Pc}

/-- The process is in front of `lock_pipe`. -/
def Asks (s : State) (p : ℕ) : Prop :=
  match s.procs p with
  | .walkLock _ | .stuck _ _ => True
  | .reclaim n _ => (info s n).any (fun x => x.name.isSome) = true
  | _ => False

/-- No process asks for the semaphore while it has it. -/
def Free (s : State) : Prop := ∀ p, Asks s p → s.sem ≠ some p

/-- An exclusive create that finds its name finds another reference to the inode as well. -/
def Shared (s : State) : Event → Prop
  | .next p _ =>
    match s.procs p with
    | .found w => w.call = .create true → ∀ n, w.store w.readonly = some n →
        ∀ i, s.nodes n = some i → i.refCount ≠ 1
    | _ => True
  | _ => True

/-- The process that has the semaphore is at a place where it should. -/
def Owned (s : State) : Prop := ∀ p, s.sem = some p → control.locked (s.procs p) = true

lemma Owned.free (hs : Owned s) : Free s := by
  intro p hasks hsem
  have hlocked := hs p hsem
  unfold Asks at hasks
  cases hp : s.procs p <;> rw [hp] at hasks hlocked <;> first | exact hasks | cases hlocked

namespace Owned

/-- A process goes on, and the semaphore stays where it is. -/
lemma setPc (hs : Owned s) (hprocs : s'.procs = update s.procs p pc) (hsem : s'.sem = s.sem)
    (hpc : control.locked (s.procs p) = true → control.locked pc = true) : Owned s' := by
  intro q hq
  rw [hsem] at hq
  rw [hprocs]
  obtain rfl | hqp := eq_or_ne q p
  · rw [update_self]
    exact hpc (hs q hq)
  · rw [update_of_ne hqp]
    exact hs q hq

/-- A process gets the semaphore. -/
lemma down (hprocs : s'.procs = update s.procs p pc) (hsem : s'.sem = some p)
    (hpc : control.locked pc = true) : Owned s' := by
  intro q hq
  cases hsem.symm.trans hq
  rwa [hprocs, update_self]

lemma up (hsem : s'.sem = none) : Owned s' := by
  intro q hq
  rw [hsem] at hq
  cases hq

lemma of_eq (hs : Owned s) (hprocs : s'.procs = s.procs) (hsem : s'.sem = s.sem) : Owned s' := by
  intro q hq
  rw [hprocs]
  exact hs q (hsem ▸ hq)

end Owned

/-- A reference is dropped: the process stops where it was the last one. -/
lemma exists_of_dropOwn {stop next : Pc} (h : dropOwn s p n stop next = .ok s') :
    ∃ i, s.nodes n = some i ∧ s' = (s.setNode n { i with refCount := i.refCount - 1 }).setPc p
      (if i.refCount - 1 = 0 then stop else next) ∧ 0 < i.refCount := by
  obtain ⟨⟨c, s1⟩, hdec, h⟩ := bind_eq_ok_iff.mp h
  obtain ⟨i, hi, hdec⟩ := bind_eq_ok_iff.mp hdec
  obtain ⟨_, hpos, hdec⟩ := bind_eq_ok_iff.mp hdec
  cases hdec
  cases h
  refine ⟨i, ?_, rfl, ?_⟩
  · grind [State.node]
  · by_contra hzero
    simp [Inodes.assert, hzero] at hpos

lemma afterWalk_owned {w : Walk} {ok : Bool} (hs : Owned s)
    (hshared : w.call = .create true → ∀ n, w.store w.readonly = some n →
      ∀ i, s.nodes n = some i → i.refCount ≠ 1) : Ensures (fun _ => True) (afterWalk s p w ok) Owned := by
  have hstay : ∀ ret other, Owned (s.setPc p (.unlock ret other)) := fun _ _ => hs.setPc rfl rfl fun _ => rfl
  cases hcall : w.call with
  | lookup =>
    rw [afterWalk, hcall]
    exact hstay _ _
  | create excl =>
    cases hnode : w.store w.readonly with
    | some n =>
      rw [afterWalk, hcall, hnode]
      refine .ite (fun hexcl => ?_) fun _ => hstay _ _
      cases h : dropOwn s p n _ _ with
      | error e => trivial
      | ok s' =>
        obtain ⟨i, hi, rfl, hpos⟩ := exists_of_dropOwn h
        -- there is another reference, so the process goes on to release the semaphore
        have hmore : i.refCount - 1 ≠ 0 := by grind
        rw [if_neg hmore]
        exact hs.setPc rfl rfl fun _ => rfl
    | none =>
      rw [afterWalk, hcall, hnode]
      exact .ite (fun _ => hs.setPc rfl rfl fun _ => rfl) fun _ => hstay _ _

/-- A process that should not have the semaphore goes on. -/
lemma Owned.outside (hs : Owned s) (hp : control.locked (s.procs p) = false)
    (hprocs : s'.procs = update s.procs p pc) (hsem : s'.sem = s.sem) : Owned s' :=
  hs.setPc hprocs hsem fun hlocked => by rw [hp] at hlocked; cases hlocked

/-- The next step of a process leaves the semaphore with a process that should have it. -/
lemma nextStep_owned {ok : Bool} (hs : Owned s) (hshared : Shared s (.next p ok)) :
    Ensures (fun _ => True) (nextStep s p ok) Owned := by
  cases hp : s.procs p <;> rw [nextStep, hp]
  case idle | stuck => exact hs
  case walkLock w => exact .ite (fun _ => Owned.down rfl rfl rfl) fun _ => hs
  case walk w todo =>
    cases todo with
    | nil => exact hs.setPc rfl rfl fun _ => rfl
    | cons n todo =>
      exact .bind_any fun i => .ite (fun _ => .bind_any fun _ => hs.setPc rfl rfl fun _ => rfl)
        fun _ => hs.setPc rfl rfl fun _ => rfl
  case walkRef w n todo =>
    refine .bind_any fun i => inodeRefInc_recounted.bind fun r hr => ?_
    refine hs.setPc (congrArg (update · p _) hr.1) hr.2.1 fun _ => ?_
    split_ifs <;> rfl
  case walkCount w n todo => exact .bind_any fun i => hs.setPc rfl rfl fun _ => rfl
  case found w =>
    rw [Shared, hp] at hshared
    exact afterWalk_owned hs hshared
  case unlock | reclaimBusy | reclaimUnlock => exact Owned.up rfl
  case dropOther ret other =>
    cases other with
    | none => exact hs.outside (hp ▸ rfl) rfl rfl
    | some n => exact inodeRefDec_recounted.bind fun r hr =>
        hs.outside (hp ▸ rfl) (congrArg (update · p _) hr.1) hr.2.1
  case reclaim n ret =>
    refine .bind_any fun i => .ite (fun _ => inodeKill_kills.bind fun s1 hkill => ?_) fun _ =>
      .ite (fun _ => Owned.down rfl rfl rfl) fun _ => hs
    exact hs.outside (hp ▸ rfl) (congrArg (update · p _) hkill.1) hkill.2.1
  case reclaimCount n ret =>
    exact .bind_any fun i => .bind_any fun _ => .ite (fun _ => hs.setPc rfl rfl fun _ => rfl)
      fun _ => hs.setPc rfl rfl fun _ => rfl
  case reclaimRemove n ret => exact hs.setPc rfl rfl fun _ => rfl
  case reclaimKill n ret =>
    exact inodeKill_kills.bind fun s1 hkill =>
      hs.outside (hp ▸ rfl) (congrArg (update · p _) hkill.1) hkill.2.1
  case finish ret =>
    cases ret <;> exact hs.outside (hp ▸ rfl) rfl rfl

/-- So does every step. -/
lemma step_owned (e : Event) (hs : Owned s) (hshared : Shared s e) :
    Ensures (fun _ => True) (step s e) Owned := by
  have hidle : ∀ {p}, (s.procs p).isIdle = true → control.locked (s.procs p) = false := fun hp => by
    rw [eq_idle_of_isIdle hp]
    rfl
  cases e <;> rw [step]
  case lookup p _ _ | create p _ _ _ | pipe p _ =>
    exact .ite (fun hp => hs.outside (hidle hp) rfl rfl) fun _ => hs
  case refInc p n =>
    exact .ite (fun _ => copyRef_recounted.mono fun s' h => hs.of_eq h.1 h.2.1) fun _ => hs
  case openInc p n =>
    exact .ite (fun _ => openRef_recounted.mono fun s' h => hs.of_eq h.1 h.2.1) fun _ => hs
  case openDec p n =>
    exact .ite (fun _ => closeRef_recounted.mono fun s' h => hs.of_eq h.1 h.2.1) fun _ => hs
  case refDec p n =>
    exact .ite (fun hp => inodeRefDec_recounted.bind fun r hr =>
      hs.outside (hidle hp.1) (congrArg (update · p _) hr.1) hr.2.1) fun _ => hs
  case next p ok => exact nextStep_owned hs hshared

/-- An exclusive create that finds its name and the only reference to the inode waits for itself. -/
lemma not_free_of_not_shared {e : Event} (hs : Inv s) (he : ¬Shared s e) (h : step s e = .ok s') :
    ¬Free s' := by
  cases e with
  | next p ok =>
    rw [Shared] at he
    split at he
    · rename_i w hp
      push Not at he
      obtain ⟨hcall, n, hnode, i, hi, hone⟩ := he
      have hsem : s.sem = some p := hs.inodes.sem p (hp ▸ rfl)
      simp only [step, nextStep, hp, afterWalk, hcall, hnode, if_true] at h
      obtain ⟨j, hj, rfl, -⟩ := exists_of_dropOwn h
      cases hi.symm.trans hj
      rw [hone, Nat.sub_self, if_pos rfl]
      intro hfree
      refine hfree p ?_ hsem
      simp [Asks, State.setPc]
    · exact absurd trivial he
  | _ => exact absurd trivial he

/-- A process waits for itself exactly if an exclusive create finds its name and the only reference to
the inode. -/
theorem relock_iff (es : List Event) : Correct step Free pipeFsInit es ↔ AllSafe step Shared pipeFsInit es := by
  refine correct_iff_allSafe (fun s => Inv s ∧ Owned s) (fun s hs => hs.2.free)
    (fun s e hs he => ?_) (fun s e s' hs he h => not_free_of_not_shared hs.1 he h)
    ⟨inv_pipeFsInit, Owned.up rfl⟩ es
  obtain ⟨s', h, hs'⟩ := step_spec hs.1 e
  have howned := step_owned e hs.2 he
  rw [h] at howned
  exact ⟨s', h, hs', howned⟩

/-- The process waits for itself. -/
def Pc.isStuck : Pc → Bool
  | .stuck _ _ => true
  | _ => false

/-- Process 1 makes a pipe and drops it; before it gets to the semaphore, process 2 tries to make the
same one exclusively. -/
def racing : List Event :=
  [.create 1 "a" true false] ++ List.replicate 6 (.next 1 true) ++ [.refDec 1 0, .create 2 "a" true true] ++
    List.replicate 6 (.next 2 true)

/-- Process 2 asks for the semaphore that it has. -/
theorem relocks : ¬Correct step Free pipeFsInit racing := by
  have hrun : (racing.foldlM step pipeFsInit).toOption.map
      (fun s => (s.sem, (s.procs 2).isStuck)) = some (some 2, true) := by
    decide +kernel
  obtain ⟨s, hs, hend⟩ := exists_ok_of_map hrun
  obtain ⟨hsem, hstuck⟩ := Prod.mk.inj hend
  intro h
  rw [← List.append_nil racing] at h
  have hfree : Free s := h.of_append hs
  refine hfree 2 ?_ hsem
  unfold Asks
  cases hp : s.procs 2 <;> rw [hp] at hstuck <;> trivial

end UcoreKernel.PipeInodes
