import Mathlib.Tactic

/-!
Lists of half-open intervals that are in order and do not meet.

The intervals are those of items `a`, from `lo a` to `hi a`; the ends live in any linear order.
-/

namespace UcoreKernel.Intervals

open List

variable {ι α : Type} [LinearOrder α] {lo hi lo' hi' : ι → α} {l l₁ l₂ : List ι} {a b : ι}
  {s e x : α}

/-- The intervals `[lo a, hi a)` are not empty, in order, and apart. -/
structure Spread (lo hi : ι → α) (l : List ι) : Prop where
  lt : ∀ a ∈ l, lo a < hi a
  ordered : l.Pairwise fun a b => hi a ≤ lo b

/-- The interval of `a` does not meet `[s, e)`. -/
def Apart (lo hi : ι → α) (s e : α) (a : ι) : Prop := hi a ≤ s ∨ e ≤ lo a

lemma spread_nil : Spread lo hi ([] : List ι) := ⟨nofun, List.Pairwise.nil⟩

namespace Spread

section

variable (h : Spread lo hi l)
include h

/-- The lower ends increase. -/
lemma strict : l.Pairwise fun a b => lo a < lo b :=
  h.ordered.imp_of_mem fun ha _ hab => (h.lt _ ha).trans_le hab

lemma nodup : l.Nodup :=
  h.strict.imp fun hab hEq => (hEq ▸ hab).false

lemma sublist (hsub : l₁.Sublist l) : Spread lo hi l₁ :=
  ⟨fun a ha => h.lt a (hsub.subset ha), h.ordered.sublist hsub⟩

/-- Intervals that become smaller, or stay. -/
lemma shrink (hsub : ∀ a ∈ l, lo a ≤ lo' a ∧ lo' a < hi' a ∧ hi' a ≤ hi a) : Spread lo' hi' l where
  lt := fun a ha => (hsub a ha).2.1
  ordered := h.ordered.imp_of_mem fun ha hb hab =>
    (hsub _ ha).2.2.trans (hab.trans (hsub _ hb).1)

lemma congr (hEq : ∀ a ∈ l, lo' a = lo a ∧ hi' a = hi a) : Spread lo' hi' l :=
  h.shrink fun a ha => by
    rw [(hEq a ha).1, (hEq a ha).2]
    exact ⟨le_rfl, h.lt a ha, le_rfl⟩

end

/-- The two parts of a list around one of its items. -/
lemma middle (h : Spread lo hi (l₁ ++ a :: l₂)) : (∀ b ∈ l₁, hi b ≤ lo a) ∧ ∀ b ∈ l₂, hi a ≤ lo b := by
  have hpair := pairwise_append.mp h.ordered
  exact ⟨fun b hb => hpair.2.2 b hb a (.head _), (pairwise_cons.mp hpair.2.1).1⟩

/-- A new item goes between the items that begin before it and those that begin after it. -/
lemma insert (h : Spread lo hi (l₁ ++ l₂)) (ha : lo a < hi a) (h₁ : ∀ b ∈ l₁, lo b ≤ lo a)
    (h₂ : ∀ b ∈ l₂, lo a < lo b) (hapart : ∀ b ∈ l₁ ++ l₂, Apart lo hi (lo a) (hi a) b) :
    Spread lo hi (l₁ ++ a :: l₂) := by
  have hbefore : ∀ b ∈ l₁, hi b ≤ lo a := fun b hb =>
    (hapart b (mem_append_left _ hb)).resolve_right fun hle =>
      ((ha.trans_le hle).trans_le (h₁ b hb)).false
  have hafter : ∀ b ∈ l₂, hi a ≤ lo b := fun b hb =>
    (hapart b (mem_append_right _ hb)).resolve_left fun hle =>
      (((h.lt b (mem_append_right _ hb)).trans_le hle).trans (h₂ b hb)).false
  refine ⟨fun b hb => ?_, ?_⟩
  · obtain hb | hb := mem_append.mp hb
    · exact h.lt b (mem_append_left _ hb)
    · obtain rfl | hb := mem_cons.mp hb
      · exact ha
      · exact h.lt b (mem_append_right _ hb)
  · obtain ⟨hp1, hp2, hp12⟩ := pairwise_append.mp h.ordered
    refine pairwise_append.mpr ⟨hp1, pairwise_cons.mpr ⟨hafter, hp2⟩, ?_⟩
    grind

/-- One item grows at its upper end, into a range that meets no other. -/
lemma grow (h : Spread lo hi l) (hge : hi a ≤ hi' a) (hlo : lo' = lo)
    (hhi : ∀ b, b ≠ a → hi' b = hi b) (hapart : ∀ b ∈ l, b ≠ a → Apart lo hi (hi a) (hi' a) b) :
    Spread lo' hi' l := by
  subst hlo
  refine ⟨fun b hb => ?_, ?_⟩
  · obtain rfl | hba := eq_or_ne b a
    · exact (h.lt b hb).trans_le hge
    · rw [hhi b hba]
      exact h.lt b hb
  · refine (h.ordered.and h.nodup).imp_of_mem ?_
    rintro b c hb hc ⟨hbc, hne⟩
    obtain rfl | hba := eq_or_ne b a
    · refine (hapart c hc hne.symm).elim (fun hle => ?_) id
      exact absurd ((h.lt c hc).trans_le (hle.trans hbc)) (lt_irrefl _)
    · rw [hhi b hba]
      exact hbc

/-- Two intervals of the list do not meet. -/
lemma apart_of_ne (h : Spread lo hi l) (ha : a ∈ l) (hb : b ∈ l) (hne : a ≠ b) :
    Apart lo hi (lo b) (hi b) a := by
  obtain ⟨l₁, l₂, rfl⟩ := append_of_mem ha
  obtain hb | hb := mem_append.mp hb
  · exact .inr (h.middle.1 b hb)
  · exact .inl (h.middle.2 b ((mem_cons.mp hb).resolve_left hne.symm))

/-- The first item that reaches beyond `s` is the only one that can keep `[s, e)` from being
free. -/
lemma apart_of_first (h : Spread lo hi (l₁ ++ a :: l₂)) (h₁ : ∀ b ∈ l₁, hi b ≤ s)
    (ha : e ≤ lo a) : ∀ b ∈ l₁ ++ a :: l₂, Apart lo hi s e b := by
  intro b hb
  obtain hb | hb := mem_append.mp hb
  · exact .inl (h₁ b hb)
  · obtain rfl | hb := mem_cons.mp hb
    · exact .inr ha
    · exact .inr (ha.trans ((h.lt a (by simp)).le.trans (h.middle.2 b hb)))

end Spread

end UcoreKernel.Intervals
