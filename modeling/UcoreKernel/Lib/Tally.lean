import Mathlib.Tactic

/-!
Counting the places of a table whose content has some property.
-/

namespace UcoreKernel.Tally

open Function

variable {A V : Type} {E E' : A → V} {P Q : A → V → Prop}

/-- The number of places whose content has the property. -/
noncomputable def tally (E : A → V) (P : A → V → Prop) : ℕ := {a | P a (E a)}.ncard

lemma tally_congr (h : ∀ a, P a (E a) ↔ Q a (E' a)) : tally E P = tally E' Q := by
  rw [tally, tally]
  congr 1
  ext a
  exact h a

lemma tally_eq_zero (h : ∀ a, ¬P a (E a)) : tally E P = 0 := by
  rw [tally, Set.ncard_eq_zero (by simp [h])]
  simp [h]

/-- A table with no such place. -/
lemma not_of_tally_eq_zero (hfin : {a | P a (E a)}.Finite) (h : tally E P = 0) (a : A) : ¬P a (E a) := by
  rw [tally, Set.ncard_eq_zero hfin] at h
  exact fun ha => Set.eq_empty_iff_forall_notMem.mp h a ha

/-- Two such places are one, if there is at most one. -/
lemma eq_of_tally_le_one (hfin : {a | P a (E a)}.Finite) (h : tally E P ≤ 1) {a b : A}
    (ha : P a (E a)) (hb : P b (E b)) : a = b :=
  (Set.ncard_le_one hfin).mp h a ha b hb

/-- The other places and the one that is looked at. -/
lemma ncard_eq_add {S : Set A} (hfin : S.Finite) (a : A) [Decidable (a ∈ S)] :
    S.ncard = (S \ {a}).ncard + if a ∈ S then 1 else 0 := by
  split_ifs with ha
  · exact (Set.ncard_sdiff_singleton_add_one ha hfin).symm
  · rw [Set.sdiff_singleton_eq_self ha, add_zero]

variable [DecidableEq A]

/-- Only finitely many places have the property after one of them has changed. -/
lemma finite_update (P : A → V → Prop) (hfin : {a | P a (E a)}.Finite) (a : A) (e : V) :
    {b | P b (update E a e b)}.Finite := by
  refine (hfin.insert a).subset fun b hb => ?_
  by_cases hba : b = a
  · exact Set.mem_insert_iff.mpr (.inl hba)
  · grind

/-- One place gets another content. -/
lemma tally_update (P : A → V → Prop) [∀ a e, Decidable (P a e)] (hfin : {a | P a (E a)}.Finite) (a : A) (e : V) :
    tally (update E a e) P + (if P a (E a) then 1 else 0) = tally E P + if P a e then 1 else 0 := by
  have hrest : {b | P b (update E a e b)} \ {a} = {b | P b (E b)} \ {a} := by grind
  have hnew := ncard_eq_add (finite_update P hfin a e) a
  grind [ncard_eq_add, tally]

end UcoreKernel.Tally
