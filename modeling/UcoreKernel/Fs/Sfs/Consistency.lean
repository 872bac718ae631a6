import UcoreKernel.Fs.Sfs.EmptyVolume

/-!
What is true of a volume, whatever has been done to it since it was made.
-/

namespace UcoreKernel.Sfs

open Guarded

variable {w : Width} {v : Vol} {es : List Vol.Event}

/-- A legal run keeps a volume in order, or it fails in a way that is tolerated. -/
lemma Vol.Inv.run_ensures (h : v.Inv) (hlegal : AllSafe (Vol.step w) Vol.Legal v es) :
    Except.Ensures Vol.Tolerated (es.foldlM (Vol.step w) v) Vol.Inv := by
  induction es generalizing v with
  | nil => exact h
  | cons e es ih =>
    rw [List.foldlM_cons]
    refine (h.step_inv w hlegal.1).bind_eq fun v₁ hstep h₁ => ?_
    have hrest := hlegal.2
    rw [hstep] at hrest
    exact ih h₁ hrest

end UcoreKernel.Sfs
