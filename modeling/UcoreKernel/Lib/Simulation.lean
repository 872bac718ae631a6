import Mathlib.Tactic

/-!
Runs of calls with what they return, and simulation: a system whose every call can be followed by a simpler
one has no runs but those of the simpler one.
-/

namespace UcoreKernel.Simulation

variable {S A O R : Type}

/-- A run: the calls one after the other, each with its result. -/
inductive Trace (step : S → O → R → S → Prop) : S → List (O × R) → S → Prop
  | nil (s : S) : Trace step s [] s
  | cons {s s₁ s' : S} {o : O} {r : R} {l : List (O × R)} (hstep : step s o r s₁)
      (hrest : Trace step s₁ l s') : Trace step s ((o, r) :: l) s'

/-- The simpler system makes the same calls, with the same results. -/
theorem Trace.simulate {step : S → O → R → S → Prop} {step' : A → O → R → A → Prop} {Rel : S → A → Prop}
    (hsim : ∀ s a o r s', Rel s a → step s o r s' → ∃ a', step' a o r a' ∧ Rel s' a') {s s' : S} {a : A}
    {l : List (O × R)} (h : Trace step s l s') (hrel : Rel s a) : ∃ a', Trace step' a l a' ∧ Rel s' a' := by
  induction h generalizing a with
  | nil s => exact ⟨a, .nil a, hrel⟩
  | cons hstep hrest ih =>
    obtain ⟨a₁, hstep', hrel₁⟩ := hsim _ a _ _ _ hrel hstep
    obtain ⟨a', hrest', hrel'⟩ := ih hrel₁
    exact ⟨a', .cons hstep' hrest', hrel'⟩

end UcoreKernel.Simulation
