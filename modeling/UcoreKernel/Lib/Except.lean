import Mathlib.Tactic

/-!
Peeling computations in `Except`.

A modelled function that can fail is a chain of binds; the lemmas below take such a chain apart
when its result, or the result of its first part, is known.

`Except.Ensures tol x Q` is a postcondition for a computation: if it returns, the result
satisfies `Q`, and if it fails, the error is one that `tol` tolerates.
-/

namespace UcoreKernel

variable {ε α β : Type} {x : Except ε α} {a : α} {b : β}

/-- A chain succeeds exactly when its first part does and the rest does from there. -/
lemma bind_eq_ok_iff {f : α → Except ε β} : x >>= f = .ok b ↔ ∃ a, x = .ok a ∧ f a = .ok b := by
  cases x with
  | error e =>
    constructor
    · intro h
      cases h
    · rintro ⟨a, ha, -⟩
      cases ha
  | ok a =>
    constructor
    · intro h
      exact ⟨a, rfl, h⟩
    · rintro ⟨a', ha, h⟩
      cases ha
      exact h

@[simp] lemma ok_bind (a : α) (f : α → Except ε β) : (Except.ok a >>= f) = f a := rfl

@[simp] lemma pure_eq_ok (a : α) : (pure a : Except ε α) = .ok a := rfl

lemma eq_ok_of_toOption (h : x.toOption = some a) : x = .ok a := by
  cases x with
  | error e => cases h
  | ok b => exact congrArg Except.ok (Option.some.inj h)

lemma exists_ok_of_bind {f : α → Option β} (h : x.toOption.bind f = some b) :
    ∃ a, x = .ok a ∧ f a = some b := by
  obtain ⟨a, ha, hb⟩ := Option.bind_eq_some_iff.mp h
  exact ⟨a, eq_ok_of_toOption ha, hb⟩

lemma exists_ok_of_map {f : α → β} (h : x.toOption.map f = some b) : ∃ a, x = .ok a ∧ f a = b := by
  obtain ⟨a, ha, hb⟩ := Option.map_eq_some_iff.mp h
  exact ⟨a, eq_ok_of_toOption ha, hb⟩

/-- A computation that returns a result with a property which can be decided. -/
lemma exists_ok_of_decide {p : α → Bool}
    (h : (match x with | .ok a => p a | .error _ => false) = true) : ∃ a, x = .ok a ∧ p a = true := by
  grind

/-- A computation succeeds, and its result has a property. -/
abbrev Yields (x : Except ε α) (P : α → Prop) : Prop := ∃ a, x = .ok a ∧ P a

/-- A step that is taken under a condition. -/
lemma yields_ite {c : Prop} [Decidable c] {P : α → Prop} (ha : P a)
    (hx : c → Yields x P) : Yields (if c then x else .ok a) P := by
  split_ifs with hc
  · exact hx hc
  · exact ⟨a, rfl, ha⟩

/-- Every result satisfies `Q`, and every error is tolerated. -/
def Except.Ensures (tol : ε → Prop) (x : Except ε α) (Q : α → Prop) : Prop :=
  match x with
  | .ok a => Q a
  | .error e => tol e

namespace Except.Ensures

variable {tol : ε → Prop} {f : α → Except ε β} {P : α → Prop} {Q : β → Prop}

@[simp] lemma ok_iff : Ensures tol (.ok a : Except ε α) P ↔ P a := Iff.rfl

@[simp] lemma error_iff {e : ε} : Ensures tol (.error e : Except ε α) P ↔ tol e := Iff.rfl

/-- The rule for a chain. -/
lemma bind (hx : Ensures tol x P) (hf : ∀ a, P a → Ensures tol (f a) Q) : Ensures tol (x >>= f) Q := by
  cases x with
  | error e => exact hx
  | ok a => exact hf a hx

/-- The same, with the computation that the rest comes from. -/
lemma bind_eq (hx : Ensures tol x P)
    (hf : ∀ a, x = .ok a → P a → Ensures tol (f a) Q) : Ensures tol (x >>= f) Q := by
  cases x with
  | error e => exact hx
  | ok a => exact hf a rfl hx

/-- The rule for a chain whose first part is not looked into. -/
lemma bind_any (hf : ∀ a, Ensures (fun _ => True) (f a) Q) : Ensures (fun _ => True) (x >>= f) Q := by
  cases x with
  | error e => trivial
  | ok a => exact hf a

/-- The rule for a case distinction. -/
lemma ite {c : Prop} [Decidable c] {y : Except ε α} (hx : c → Ensures tol x P)
    (hy : ¬c → Ensures tol y P) : Ensures tol (if c then x else y) P := by
  split_ifs with h
  · exact hx h
  · exact hy h

/-- The rule for a result that is mapped. -/
lemma map {g : α → β} (hx : Ensures tol x fun a => Q (g a)) : Ensures tol (g <$> x) Q := by
  cases x with
  | error | ok => exact hx

variable {P' : α → Prop}

/-- The rule of consequence. -/
lemma mono (hx : Ensures tol x P) (hPP' : ∀ a, P a → P' a) : Ensures tol x P' := by
  cases x with
  | error e => exact hx
  | ok a => exact hPP' a hx

lemma mono_eq (hx : Ensures tol x P) (hPP' : ∀ a, x = .ok a → P a → P' a) : Ensures tol x P' := by
  cases x with
  | error e => exact hx
  | ok a => exact hPP' a rfl hx

variable {tol' : ε → Prop}

/-- More errors are tolerated. -/
lemma tolerate (hx : Ensures tol x P) (htol : ∀ e, tol e → tol' e) : Ensures tol' x P := by
  cases x with
  | error e => exact htol e hx
  | ok a => exact hx

/-- Two postconditions, with the tolerance of the first. -/
lemma and (hx : Ensures tol x P) (hx' : Ensures tol' x P') : Ensures tol x fun a => P a ∧ P' a := by
  cases x with
  | error e => exact hx
  | ok a => exact ⟨hx, hx'⟩

lemma of_ok (h : ∃ a, x = .ok a ∧ P a) : Ensures tol x P := by
  obtain ⟨a, rfl, ha⟩ := h
  exact ha

end Except.Ensures

end UcoreKernel
