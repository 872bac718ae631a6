import UcoreKernel.Fs.Sfatfs.Chains

/-!
What `sfatfs_sync` writes back.

It writes the superblock, the table and the records if the superblock is dirty. Only a new file marks it so,
and therefore what a write or a truncate does to the table and to the records stays in memory.
-/

namespace UcoreKernel.Sfatfs

open UcoreKernel.Except (Ensures)
open Guarded Function List

variable {v v' : Vol} {sin : Sin} {op : Op}

/-- The device has the superblock, the table and the records as they are in memory. -/
structure Synced (v : Vol) : Prop where
  super : v.disk.super = v.super
  fat : v.disk.fat = v.fat
  dinos : v.disk.dinos = v.dinos

/-- The operations that find, read, write and truncate files. -/
def Op.OnFiles : Op → Prop
  | .create _ => False
  | .fsync _ => False
  | .remount => False
  | _ => True

/-- The device, the superblock and the flag that it is dirty are as before. -/
def Unmarked (v v' : Vol) : Prop :=
  v'.disk = v.disk ∧ v'.super = v.super ∧ v'.superDirty = v.superDirty

lemma truncfile_unmarked (v : Vol) (n : ℕ) (sin : Sin) (len : ℕ) :
    Ensures (fun _ => True) (truncfile v n sin len) fun r => Unmarked v r.1 := by
  rw [truncfile]
  refine .ite (fun _ => ⟨rfl, rfl, rfl⟩) fun _ => .ite (fun _ => ?_) fun _ => .bind_any fun _ => ⟨rfl, rfl, rfl⟩
  split <;> exact ⟨rfl, rfl, rfl⟩

lemma transfer_unmarked (v : Vol) (n : ℕ) (sin : Sin) (offset endpos : ℕ) :
    Ensures (fun _ => True) (transfer v n sin offset endpos) fun r => Unmarked v r.1 :=
  .bind_any fun _ => .ite (fun _ => ⟨rfl, rfl, rfl⟩) fun _ => ⟨rfl, rfl, rfl⟩

/-- None of them marks the superblock dirty. -/
lemma step_unmarked (hop : op.OnFiles) : Ensures (fun _ => True) (v.step op) (Unmarked v) := by
  have hsame : Unmarked v v := ⟨rfl, rfl, rfl⟩
  refine .bind ?_ fun _ hr => hr
  have hfile : ∀ n f, (∀ sin, Ensures (fun _ => True) (f sin) fun r => Unmarked v r.1) →
      Ensures (fun _ => True) (onFile v n f) fun r => Unmarked v r.1 := fun n f hf => by
    rw [onFile]
    split
    · exact hsame
    · exact .ite (fun _ => hsame) fun _ => hf _
  cases op with
  | create | fsync | remount => exact hop.elim
  | lookup name =>
    refine .ite (fun _ => trivial) fun _ => ?_
    split
    · exact hsame
    · rw [loadInode]
      split_ifs
      · exact hsame
      · trivial
  | io n offset len write =>
    refine hfile n _ fun sin => ?_
    rw [ioNolock]
    exact .ite (fun _ => hsame) fun _ => .ite (fun _ => hsame) fun _ =>
      .ite (fun _ => transfer_unmarked ..) fun _ => .ite (fun _ => hsame) fun _ => transfer_unmarked ..
  | tryseek n pos =>
    exact hfile n _ fun sin => .ite (fun _ => hsame) fun _ =>
      .ite (fun _ => truncfile_unmarked ..) fun _ => hsame
  | truncate n len => exact hfile n _ fun sin => truncfile_unmarked ..

lemma run_unmarked {ops : List Op} (hops : ∀ op ∈ ops, op.OnFiles)
    (hrun : ops.foldlM Vol.step v = .ok v') : Unmarked v v' := by
  have hsafe : AllSafe Vol.step (fun _ op => Op.OnFiles op) v ops :=
    allSafe_of_forall_mem (fun op hop _ => hops op hop) v
  refine inv_of_allSafe (Unmarked v) (fun v₁ op v₂ hv hop hstep => ?_) ⟨rfl, rfl, rfl⟩ hsafe hrun
  have hnext := step_unmarked (v := v₁) hop
  rw [hstep] at hnext
  exact ⟨hnext.1.trans hv.1, hnext.2.1.trans hv.2.1, hnext.2.2.trans hv.2.2⟩

end UcoreKernel.Sfatfs
