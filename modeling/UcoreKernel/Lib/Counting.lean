import Mathlib.Tactic

/-!
Sums over a family of which one member changes.
-/

namespace UcoreKernel.Counting

open Function

variable {ι α : Type} [DecidableEq ι]

/-- What a sum over a family gains and loses when one member is replaced. -/
lemma sum_update_add {s : Finset ι} {k : ι} (hk : k ∈ s) (f : α → ℕ) (g : ι → α) (v : α) :
    ∑ i ∈ s, f (update g k v i) + f (g k) = ∑ i ∈ s, f (g i) + f v := by
  have hrest : ∑ i ∈ s.erase k, f (update g k v i) = ∑ i ∈ s.erase k, f (g i) :=
    Finset.sum_congr rfl fun i hi => by rw [update_of_ne (Finset.ne_of_mem_erase hi)]
  calc ∑ i ∈ s, f (update g k v i) + f (g k) = f v + ∑ i ∈ s.erase k, f (g i) + f (g k) := by
        rw [← Finset.add_sum_erase s _ hk, hrest, update_self]
    _ = f (g k) + ∑ i ∈ s.erase k, f (g i) + f v := by ring
    _ = ∑ i ∈ s, f (g i) + f v := by rw [Finset.add_sum_erase s (fun i => f (g i)) hk]

omit [DecidableEq ι] in
/-- The same over a whole type, for two families that agree but at one place. -/
lemma finsum_add_of_eq_of_ne {M : Type} [AddCommMonoid M] {f g : ι → M} {k : ι}
    (hf : (support f).Finite) (hfg : ∀ i, i ≠ k → g i = f i) : ∑ᶠ i, g i + f k = ∑ᶠ i, f i + g k := by
  classical
  have hsupp : support f ⊆ (insert k hf.toFinset) := fun i hi => by
    simp [mem_support.mp hi]
  have hsupp' : support g ⊆ (insert k hf.toFinset) := fun i hi => by
    by_cases hik : i = k
    · simp [hik]
    · grind [mem_support]
  have hrest : ∑ i ∈ (insert k hf.toFinset).erase k, g i =
      ∑ i ∈ (insert k hf.toFinset).erase k, f i :=
    Finset.sum_congr rfl fun i hi => hfg i (Finset.ne_of_mem_erase hi)
  grind [finsum_eq_sum_of_support_subset, Finset.add_sum_erase]

end UcoreKernel.Counting
