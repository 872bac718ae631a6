import UcoreKernel.Mm.VmmCalls

/-!
The sets of VMAs after every sequence of calls, over any number of address spaces.
-/

namespace UcoreKernel.Vmm

open UcoreKernel.Except (Ensures)
open Rb (Shape)
open RedBlack RedBlack.ColTree

variable {P : Type} {A : Layout} {ops : PageOps P} {K : Kmalloc} {σ : System P}

/-- Every address space is in order. -/
def SysInv (A : Layout) (σ : System P) : Prop := ∀ a mm, σ.mms a = some mm → MmInv A mm

/-- A call on one address space. -/
lemma on_ensures {α : Type} {f : St P → Except Stop (α × St P)} (hσ : SysInv A σ) (a : ℕ)
    (hf : ∀ mm, σ.mms a = some mm → Ensures Stop.Foreign (f ⟨σ.kernel, mm⟩) fun r => MmInv A r.2.mm) :
    Ensures Stop.Foreign (σ.on a f) (SysInv A) := by
  rw [System.on]
  cases ha : σ.mms a with
  | none => exact hσ
  | some mm =>
    refine (hf mm ha).bind fun r hr => ?_
    intro b mm' hb
    dsimp only at hb
    by_cases hba : b = a
    · grind
    · rw [Function.update_of_ne hba] at hb
      exact hσ b mm' hb

/-- One call. -/
lemma step_ensures (hσ : SysInv A σ) (op : Op) : Ensures Stop.Foreign (step A ops K σ op) (SysInv A) := by
  cases op with
  | mmCreate a pgdir vmas links =>
    rw [step]
    cases ha : σ.mms a with
    | some mm => exact hσ
    | none =>
      intro b mm' hb
      dsimp only at hb
      by_cases hba : b = a
      · grind [mmCreate_inv]
      · rw [Function.update_of_ne hba] at hb
        exact hσ b mm' hb
  | mmMap a addr len vmFlags =>
    rw [step]
    refine on_ensures hσ a fun mm hmm => Ensures.of_ok ?_
    obtain ⟨r, s', hrun, hinv, -⟩ :=
      mmMap_spec (s := ⟨σ.kernel, mm⟩) (hσ a mm hmm) addr len vmFlags
    exact ⟨_, hrun, hinv⟩
  | mmMapShmem a addr vmFlags shmem =>
    rw [step]
    refine on_ensures hσ a fun mm hmm => Ensures.of_ok ?_
    obtain ⟨r, s', hrun, hinv, -⟩ :=
      mmMapShmem_spec (s := ⟨σ.kernel, mm⟩) (hσ a mm hmm) addr vmFlags shmem
    exact ⟨_, hrun, hinv⟩
  | mmUnmap a addr len =>
    rw [step]
    refine on_ensures hσ a fun mm hmm => ?_
    refine (mmUnmap_ensures (hσ a mm hmm) addr len).mono fun r hr => ?_
    obtain ⟨e | ⟨⟩, s'⟩ := r
    · exact hr.1
    · exact hr.inv
  | mmBrk a addr len =>
    rw [step]
    exact on_ensures hσ a fun mm hmm => mmBrk_ensures (hσ a mm hmm) addr len
  | dupMmap target source =>
    rw [step]
    cases hs : σ.mms source with
    | none => exact hσ
    | some old =>
      refine on_ensures hσ target fun mm hmm => ?_
      split_ifs with hnew
      · exact (dupMmap_ensures (hσ target mm hmm) hnew (hσ source old hs)).mono fun r hr => hr.inv
      · exact hσ target mm hmm

/-- A sequence of calls. -/
lemma run_ensures (hσ : SysInv A σ) (calls : List Op) :
    Ensures Stop.Foreign (run A ops K σ calls) (SysInv A) := by
  induction calls generalizing σ with
  | nil => exact hσ
  | cons op calls ih =>
    rw [run]
    exact (step_ensures hσ op).bind fun σ' hσ' => ih hσ'

/-- **The VMA sets.**  For every port, every behaviour of the page tables and every pattern of
failing allocations: a sequence of calls of `mm_create`, `mm_map`, `mm_map_shmem`, `mm_unmap`,
`mm_brk` and `dup_mmap` into a new address space, with any arguments, fails no assertion and no
walk in a tree; and in the state it reaches, the list of VMAs of every address space is strictly
sorted and pairwise disjoint, its VMAs are page-aligned and inside user memory, `map_count` is its
length, the red-black tree, if there is one, holds exactly these VMAs in the same order, and
`mmap_cache` is `NULL` or one of them. -/
theorem vma_sets_in_order (A : Layout) (ops : PageOps P) (K : Kmalloc) (kernel : Kernel P) (calls : List Op) :
    run A ops K ⟨kernel, fun _ => none⟩ calls ≠ .error .assertion ∧
    ∀ σ, run A ops K ⟨kernel, fun _ => none⟩ calls = .ok σ → ∀ a mm, σ.mms a = some mm →
      (mm.mmapList.Pairwise fun v w => (mm.vmas v).vmStart < (mm.vmas w).vmStart) ∧
      (mm.mmapList.Pairwise fun v w => (mm.vmas v).vmEnd ≤ (mm.vmas w).vmStart) ∧
      (∀ v ∈ mm.mmapList, A.pgsize ∣ (mm.vmas v).vmStart ∧ A.pgsize ∣ (mm.vmas v).vmEnd ∧
        A.userBase ≤ (mm.vmas v).vmStart ∧ (mm.vmas v).vmStart < (mm.vmas v).vmEnd ∧
        (mm.vmas v).vmEnd ≤ A.userTop) ∧
      mm.mapCount = mm.mmapList.length ∧
      (∀ T, mm.mmapTree = some T → ∃ t, Shape T mm.links [] t ∧ t.isRed = false ∧ (∃ n, Rb t n) ∧
        t.toList = mm.mmapList) ∧
      ∀ v, mm.mmapCache = some v → v ∈ mm.mmapList := by
  have hstart : SysInv A (⟨kernel, fun _ => none⟩ : System P) := nofun
  have hrun : Ensures Stop.Foreign (run A ops K ⟨kernel, fun _ => none⟩ calls) (SysInv A) :=
    run_ensures hstart calls
  constructor
  · intro herr
    rw [herr] at hrun
    exact hrun rfl
  · intro σ hσ a mm hmm
    rw [hσ] at hrun
    have hinv : MmInv A mm := hrun a mm hmm
    refine ⟨hinv.spread.strict, hinv.spread.ordered, fun v hv => ?_, hinv.count,
      fun T hT => (hinv.tree T hT).1, hinv.cache⟩
    have huser := hinv.inUser v hv
    exact ⟨huser.dvdStart, huser.dvdEnd, huser.access⟩

/-- The allocator that hands out the smallest block above all blocks in use. -/
def bumpKmalloc : Kmalloc where
  pick := fun _ blocks => some (blocks.sup id + 1)
  fresh := by grind [Finset.le_sup]

/-- A VMA is split by `mm_unmap`, and `mm_brk` extends its lower part. -/
theorem vma_sets_in_order_split :
    ∃ σ mm, run Layout.i386 ⟨fun p _ _ _ => some p, fun p _ _ _ _ _ => some (true, p),
        fun p _ => some p⟩ bumpKmalloc ⟨⟨0, fun _ => ⟨0, 0⟩, ()⟩, fun _ => none⟩
        [.mmCreate 7 0 (fun _ => ⟨0, 0, 0, 0, none, 0⟩) (fun _ => ⟨false, 0, 0, 0⟩),
         .mmMap 7 0x800000 0x4000 3, .mmUnmap 7 0x801000 0x1000, .mmBrk 7 0x801000 0x1000] =
        .ok σ ∧ σ.mms 7 = some mm ∧ mm.mmapList.length = 2 ∧
      mm.mmapList.Pairwise fun v w => (mm.vmas v).vmEnd ≤ (mm.vmas w).vmStart := by
  generalize hrun : run _ _ _ _ _ = x
  have hmm : (x.toOption.bind fun σ => (σ.mms 7).map fun mm => mm.mmapList.length) = some 2 := by
    rw [← hrun]
    decide +kernel
  obtain ⟨σ, hσ, hmap⟩ := Option.bind_eq_some_iff.mp hmm
  obtain ⟨mm, hmm, hlen⟩ := Option.map_eq_some_iff.mp hmap
  grind [eq_ok_of_toOption, vma_sets_in_order]

end UcoreKernel.Vmm
