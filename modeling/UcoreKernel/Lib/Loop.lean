import UcoreKernel.Lib.Except

/-!
Loops whose number of turns is not known beforehand, in computations that can fail.

A loop is given a number of turns, and fails with an error of its own if they are not enough.
-/

namespace UcoreKernel

variable {P S R : Type}

/-- What a turn of a loop leaves: the state for the next one, or the result. -/
inductive Turn (S R : Type) where
  | next (s : S)
  | done (r : R)

/-- At most `fuel` turns. -/
def loop (out : P) (body : S → Except P (Turn S R)) : ℕ → S → Except P R
  | 0, _ => .error out
  | fuel + 1, s =>
    body s >>= fun
      | .next s => loop out body fuel s
      | .done r => .ok r

/-- What a turn must leave for an invariant and a postcondition. -/
def Turn.Meets (Inv : S → Prop) (Q : R → Prop) : Turn S R → Prop
  | .next s => Inv s
  | .done r => Q r

variable {out : P} {body : S → Except P (Turn S R)} {tol : P → Prop}
  {Q : R → Prop} {s : S}

/-- If every turn keeps the invariant, the result satisfies the postcondition. -/
lemma loop_ensures (Inv : S → Prop) (hout : tol out)
    (hbody : ∀ s, Inv s → Except.Ensures tol (body s) (Turn.Meets Inv Q)) (fuel : ℕ) (hs : Inv s) :
    Except.Ensures tol (loop out body fuel s) Q := by
  induction fuel generalizing s with
  | zero => exact hout
  | succ fuel ih =>
    refine (hbody s hs).bind fun t ht => ?_
    cases t with
    | next s' => exact ih ht
    | done r => exact ht

end UcoreKernel
