import UcoreKernel.Mm.VmaSet

/-!
The VMAs of an address space as regions, apart from the list, the tree and the blocks that hold them.

`Mm.regions` is the collection of the VMAs of an address space. The regions decide what the address
space has to do with shared memory: `pointers` counts the regions that point to an object, `Backed` says
that the shared regions and no others have an object, and `Sees` says at which offset of which object an
address lies. `Vma.cut` is what is left of a region when a range is unmapped.
-/

namespace UcoreKernel.Vmm

open Function Multiset Vma

variable {P : Type} {A : Layout} {R : Multiset Vma} {l l' : List ℕ} {a start stop x k : ℕ} {v : Vma}
  {b : Option (ℕ × ℕ)} {s s' : St P}

/-- The VMA, whoever owns it. -/
def Vma.region (v : Vma) : Vma := { v with vmMm := 0 }

/-- The VMAs of a list. -/
def regionsOf (vmas : ℕ → Vma) (l : List ℕ) : Multiset Vma := (l : Multiset ℕ).map fun a => (vmas a).region

/-- The VMAs of the address space. -/
def Mm.regions (mm : Mm) : Multiset Vma := regionsOf mm.vmas mm.mmapList

section RegionsOf

variable {vmas vmas' : ℕ → Vma}

lemma regionsOf_cons : regionsOf vmas (a :: l) = (vmas a).region ::ₘ regionsOf vmas l := by
  rw [regionsOf, ← cons_coe, map_cons]
  rfl

lemma regionsOf_append : regionsOf vmas (l ++ l') = regionsOf vmas l + regionsOf vmas l' := by
  rw [regionsOf, ← coe_add, map_add]
  rfl

lemma regionsOf_perm (h : l.Perm l') : regionsOf vmas l = regionsOf vmas l' := by
  rw [regionsOf, regionsOf, coe_eq_coe.mpr h]

lemma regionsOf_congr (h : ∀ a ∈ l, vmas' a = vmas a) : regionsOf vmas' l = regionsOf vmas l :=
  map_congr rfl fun a ha => by rw [h a (mem_coe.mp ha)]

lemma mem_regionsOf : v ∈ regionsOf vmas l ↔ ∃ a ∈ l, (vmas a).region = v := by
  simp [regionsOf]

lemma apart_regionsOf (h : ∀ a ∈ l, (vmas a).ApartFrom start stop) :
    ∀ v ∈ regionsOf vmas l, v.ApartFrom start stop := by
  intro v hv
  obtain ⟨a, ha, rfl⟩ := mem_regionsOf.mp hv
  exact h a ha

/-- One VMA more. -/
lemma regionsOf_of_perm (hperm : l'.Perm (a :: l)) (h : ∀ b ∈ l, vmas' b = vmas b) :
    regionsOf vmas' l' = (vmas' a).region ::ₘ regionsOf vmas l := by
  rw [regionsOf_perm hperm, regionsOf_cons, regionsOf_congr h]

end RegionsOf

/-! ### Shared memory -/

/-- The number of regions that point to an object. -/
def pointers (R : Multiset Vma) (k : ℕ) : ℕ := R.countP (·.shmem = some k)

/-- The region is shared exactly if it has an object. -/
def Vma.Backed (v : Vma) : Prop := v.share = true ↔ v.shmem ≠ none

/-- The shared regions and no others have an object. -/
def Backed (R : Multiset Vma) : Prop := ∀ v ∈ R, v.Backed

/-- The object and the offset that an address of the region stands for. -/
def Vma.backing (A : Layout) (v : Vma) (x : ℕ) : Option (ℕ × ℕ) :=
  v.shmem.map fun k => (k, (v.shmemOff + (x - v.vmStart)) % 2 ^ A.wordBits)

/-- The address is mapped, and stands for `b`. -/
def Sees (A : Layout) (R : Multiset Vma) (x : ℕ) (b : Option (ℕ × ℕ)) : Prop :=
  ∃ v ∈ R, v.Covers x ∧ v.backing A x = b

/-- The references to an object, less the regions that point to it. -/
def St.drift (s : St P) (k : ℕ) : ℤ := (s.kernel.shmems k).shmemRef - pointers s.mm.regions k

lemma pointers_cons : pointers (v ::ₘ R) k = pointers {v} k + pointers R k := by
  rw [← singleton_add, pointers, countP_add]
  rfl

lemma pointers_add {R' : Multiset Vma} : pointers (R + R') k = pointers R k + pointers R' k :=
  countP_add _ R R'

lemma pointers_singleton_congr {w : Vma} (h : v.shmem = w.shmem) : pointers {v} k = pointers {w} k := by
  simp only [pointers, ← cons_zero, countP_cons, h]

lemma pointers_singleton_none (h : v.shmem = none) : pointers {v} k = 0 := by
  simp [pointers, ← cons_zero, h]

lemma sees_cons : Sees A (v ::ₘ R) x b ↔ (v.Covers x ∧ v.backing A x = b) ∨ Sees A R x b := by
  simp [Sees, or_and_right, exists_or]

lemma backed_cons : Backed (v ::ₘ R) ↔ v.Backed ∧ Backed R := by
  simp [Backed]

lemma Vma.backed_private (hshare : v.share = false) (hshmem : v.shmem = none) : v.Backed := by
  simp [Vma.Backed, hshare, hshmem]

lemma Vma.Backed.shmem_eq_none (h : v.Backed) (hshare : v.share = false) : v.shmem = none := by
  by_contra hne
  rw [h.mpr hne] at hshare
  cases hshare

/-! ### A region that is cut -/

/-- A VMA after `vma_resize`. -/
def Vma.resized (A : Layout) (v : Vma) (start stop : ℕ) : Vma :=
  { v with
    vmStart := start
    vmEnd := stop
    shmemOff := if v.share then (v.shmemOff + (start - v.vmStart)) % 2 ^ A.wordBits else v.shmemOff }

/-- A smaller region of the same object. -/
lemma Vma.Backed.resized (h : v.Backed) : (v.resized A start stop).Backed := h

/-- `vma_resize` keeps the offset of each address. -/
lemma Vma.backing_resized (h : v.Backed) (h₁ : v.vmStart ≤ start) (hx : start ≤ x) :
    (v.resized A start stop).backing A x = v.backing A x := by
  cases hshare : v.share with
  | false => simp [backing, resized, h.shmem_eq_none hshare]
  | true =>
    have hoff : v.shmemOff + (start - v.vmStart) + (x - start) = v.shmemOff + (x - v.vmStart) := by
      omega
    simp [backing, resized, hshare, Nat.mod_add_mod, hoff]

instance (v : Vma) (start stop : ℕ) : Decidable (v.ApartFrom start stop) :=
  inferInstanceAs (Decidable (_ ∨ _))

/-- What `mm_unmap` leaves of a region that does not contain the range strictly inside. -/
def Vma.cut (A : Layout) (start stop : ℕ) (v : Vma) : Multiset Vma :=
  if v.ApartFrom start stop then {v}
  else if v.vmStart < start then {v.resized A v.vmStart start}
  else if stop < v.vmEnd then {v.resized A stop v.vmEnd}
  else 0

lemma Vma.cut_of_apart (h : v.ApartFrom start stop) : v.cut A start stop = {v} := if_pos h

section

variable (h : ¬v.ApartFrom start stop)
include h

lemma Vma.cut_below (hbelow : v.vmStart < start) : v.cut A start stop = {v.resized A v.vmStart start} := by
  rw [cut, if_neg h, if_pos hbelow]

lemma Vma.cut_above (hbelow : ¬v.vmStart < start)
    (habove : stop < v.vmEnd) : v.cut A start stop = {v.resized A stop v.vmEnd} := by
  rw [cut, if_neg h, if_neg hbelow, if_pos habove]

lemma Vma.cut_inside (hbelow : ¬v.vmStart < start) (habove : ¬stop < v.vmEnd) : v.cut A start stop = 0 := by
  rw [cut, if_neg h, if_neg hbelow, if_neg habove]

end

/-- The pieces are backed as the region is. -/
lemma Vma.Backed.cut (h : v.Backed) {w : Vma} (hw : w ∈ v.cut A start stop) : w.Backed := by
  rw [Vma.cut] at hw
  split_ifs at hw
  · rwa [mem_singleton.mp hw]
  · rw [mem_singleton.mp hw]
    exact h.resized
  · rw [mem_singleton.mp hw]
    exact h.resized
  · exact absurd hw (notMem_zero w)

/-- The pieces have the addresses outside the range, with the same offsets. -/
lemma Vma.sees_cut (h : v.Backed) (hone : ¬(v.vmStart < start ∧ stop < v.vmEnd)) :
    Sees A (v.cut A start stop) x b ↔ (v.Covers x ∧ v.backing A x = b) ∧ ¬(start ≤ x ∧ x < stop) := by
  have hsingle : ∀ w, Sees A {w} x b ↔ w.Covers x ∧ w.backing A x = b := fun w => by
    simp [Sees]
  rw [cut]
  split_ifs with hapart hbelow habove <;> rw [Vma.ApartFrom] at hapart
  · grind [Vma.Covers]
  · rw [hsingle]
    constructor
    · rintro ⟨⟨h1, h2⟩, hb⟩
      dsimp only [resized] at h1 h2
      rw [backing_resized h le_rfl h1] at hb
      exact ⟨⟨⟨h1, by omega⟩, hb⟩, by omega⟩
    · rintro ⟨⟨⟨h1, h2⟩, hb⟩, hout⟩
      rw [backing_resized h le_rfl h1]
      exact ⟨⟨h1, show x < start by omega⟩, hb⟩
  · rw [hsingle]
    constructor
    · rintro ⟨⟨h1, h2⟩, hb⟩
      dsimp only [resized] at h1 h2
      rw [backing_resized h (by omega) h1] at hb
      exact ⟨⟨⟨by omega, h2⟩, hb⟩, by omega⟩
    · rintro ⟨⟨⟨h1, h2⟩, hb⟩, hout⟩
      have hx : stop ≤ x := by omega
      rw [backing_resized h (by omega) hx]
      exact ⟨⟨hx, h2⟩, hb⟩
  · refine iff_of_false (fun ⟨w, hw, _⟩ => notMem_zero w hw) ?_
    rintro ⟨⟨⟨h1, h2⟩, -⟩, hout⟩
    omega

/-- Regions outside the range are not cut. -/
lemma bind_cut_of_apart (h : ∀ v ∈ R, v.ApartFrom start stop) : R.bind (cut A start stop) = R := by
  have hself : R.bind (cut A start stop) = R.bind fun v => {v} :=
    bind_congr fun v hv => cut_of_apart (h v hv)
  rw [hself, bind_singleton, map_id']

/-! ### What `mm_unmap` does -/

/-- The regions have been cut at the range, which none of them had strictly inside. -/
structure CutAt (A : Layout) (start stop : ℕ) (s s' : St P) : Prop where
  oneSide : ∀ v ∈ s.mm.regions, ¬(v.vmStart < start ∧ stop < v.vmEnd)
  regions : s'.mm.regions = s.mm.regions.bind (Vma.cut A start stop)
  drift : ∀ k, s'.drift k = s.drift k

/-- A region has been split at the range, which it had strictly inside: the part below is a new region,
without an object. -/
structure SplitAt (A : Layout) (start stop : ℕ) (v : Vma) (rest : Multiset Vma) (s s' : St P) :
    Prop where
  old : s.mm.regions = v ::ₘ rest
  range : start < stop
  below : v.vmStart < start
  above : stop < v.vmEnd
  apart : ∀ w ∈ rest, w.ApartFrom start stop
  regions : s'.mm.regions = v.resized A stop v.vmEnd ::ₘ
    ⟨0, v.vmStart, start, v.vmFlags, none, 0⟩ ::ₘ rest
  shmems : s'.kernel.shmems = s.kernel.shmems

/-- What `mm_unmap` has done to the regions. -/
def UnmapRegions (A : Layout) (start stop : ℕ) (s : St P) (r : Except Errno Unit × St P) : Prop :=
  match r.1 with
  | .error _ => r.2.mm.regions = s.mm.regions ∧ r.2.kernel.shmems = s.kernel.shmems
  | .ok () => CutAt A start stop s r.2 ∨ ∃ v rest, SplitAt A start stop v rest s r.2

end UcoreKernel.Vmm
