import UcoreKernel.Lib.Except

/-!
Runs of a machine whose steps can fail, and a condition on the single step under which a run goes
well.

* `Correct`: no step of the run fails, and every state on the way is good;
* `AllSafe`: every step of the run meets the condition in the state it is taken in;
* `correct_of_allSafe`: a run of safe steps is correct, if safe steps keep an invariant that makes
  states good;
* `correct_iff_allSafe`: no other run is, if an unsafe step fails or leads to a state that is not
  good;
* `CorrectUpTo`, `correctUpTo_iff_allSafe`: the same for runs that may end in failures of some kinds;
* `correctUpTo_iff_allSafe_of_legal`: the same among the runs whose steps keep to a contract;
* `allSafe_congr_of_legal`: two conditions on steps that agree in all states that matter.
-/

namespace UcoreKernel.Guarded

open List

variable {S E P : Type}

/-- The run neither fails nor meets a state that is not good. -/
def Correct (step : S → E → Except P S) (Good : S → Prop) : S → List E → Prop
  | s, [] => Good s
  | s, e :: es => Good s ∧ ∃ s', step s e = .ok s' ∧ Correct step Good s' es

/-- Every step that the run comes to is safe. -/
def AllSafe (step : S → E → Except P S) (Safe : S → E → Prop) : S → List E → Prop
  | _, [] => True
  | s, e :: es => Safe s e ∧
      match step s e with
      | .ok s' => AllSafe step Safe s' es
      | .error _ => True

variable {step : S → E → Except P S} {Good : S → Prop} {Safe : S → E → Prop} {s s' : S}

variable {es : List E}

lemma Correct.good (h : Correct step Good s es) : Good s := by
  cases es with
  | nil => exact h
  | cons e es => exact h.1

instance AllSafe.decidable [∀ s e, Decidable (Safe s e)] (s : S) (es : List E) :
    Decidable (AllSafe step Safe s es) :=
  match es with
  | [] => isTrue trivial
  | e :: es =>
    match h : step s e with
    | .ok s' =>
      have := AllSafe.decidable s' es
      decidable_of_iff (Safe s e ∧ AllSafe step Safe s' es) (by rw [AllSafe, h])
    | .error _ => decidable_of_iff (Safe s e) (by rw [AllSafe, h, and_true])

section

variable (Inv : S → Prop) (hgood : ∀ s, Inv s → Good s)
  (hsafe : ∀ s e, Inv s → Safe s e → ∃ s', step s e = .ok s' ∧ Inv s')
include hgood hsafe

/-- Safe steps keep an invariant, so a run of them is correct. -/
lemma correct_of_allSafe (hs : Inv s) (h : AllSafe step Safe s es) : Correct step Good s es := by
  induction es generalizing s with
  | nil => exact hgood s hs
  | cons e es ih =>
    obtain ⟨s', hstep, hs'⟩ := hsafe s e hs h.1
    have hrest := h.2
    rw [hstep] at hrest
    exact ⟨hgood s hs, s', hstep, ih hs' hrest⟩

/-- One condition on steps decides whether a run is correct: safe steps keep an invariant, and an
unsafe step is where the run goes wrong. -/
theorem correct_iff_allSafe (hbad : ∀ s e s', Inv s → ¬Safe s e → step s e = .ok s' → ¬Good s')
    (hs : Inv s) (es : List E) : Correct step Good s es ↔ AllSafe step Safe s es := by
  refine ⟨fun h => ?_, correct_of_allSafe Inv hgood hsafe hs⟩
  induction es generalizing s with
  | nil => exact trivial
  | cons e es ih =>
    obtain ⟨-, s', hstep, hrun⟩ := h
    have he : Safe s e := by
      by_contra hne
      exact hbad s e s' hs hne hstep hrun.good
    grind [AllSafe]

end

/-- The rest of a run that is correct. -/
lemma Correct.of_append {es' : List E} (h : Correct step Good s (es ++ es'))
    (hrun : es.foldlM step s = .ok s') : Correct step Good s' es' := by
  induction es generalizing s with
  | nil =>
    cases hrun
    exact h
  | cons e es ih =>
    obtain ⟨-, s1, hstep, hrest⟩ := h
    rw [foldlM_cons, hstep, ok_bind] at hrun
    exact ih hrest hrun

variable {Inv : S → Prop}

/-- Steps that neither fail nor leave an invariant make runs that do not fail. -/
lemma exists_foldlM (hstep : ∀ s e, Inv s → ∃ s', step s e = .ok s' ∧ Inv s')
    (hs : Inv s) (es : List E) : ∃ s', es.foldlM step s = .ok s' ∧ Inv s' := by
  induction es generalizing s with
  | nil => exact ⟨s, rfl, hs⟩
  | cons e es ih =>
    obtain ⟨s1, he, hs1⟩ := hstep s e hs
    grind [ok_bind]

/-- A run of safe steps is safe in any weaker sense. -/
lemma AllSafe.mono {Safe' : S → E → Prop} (h : AllSafe step Safe s es)
    (hle : ∀ s e, Safe s e → Safe' s e) : AllSafe step Safe' s es := by
  induction es generalizing s with
  | nil => exact trivial
  | cons e es ih =>
    obtain ⟨he, hrest⟩ := h
    refine ⟨hle s e he, ?_⟩
    grind

/-- Steps that are safe as long as an invariant holds, which they keep. -/
lemma allSafe_of_inv (Inv : S → Prop) (hsafe : ∀ s, ∀ e ∈ es, Inv s → Safe s e)
    (hkeep : ∀ s e s', Inv s → Safe s e → step s e = .ok s' → Inv s') (hs : Inv s) :
    AllSafe step Safe s es := by
  induction es generalizing s with
  | nil => exact trivial
  | cons e es ih =>
    have he := hsafe s e (.head _) hs
    refine ⟨he, ?_⟩
    grind

/-- What safe steps keep holds at the end of a run of them. -/
lemma inv_of_allSafe (Inv : S → Prop)
    (hkeep : ∀ s e s', Inv s → Safe s e → step s e = .ok s' → Inv s') (hs : Inv s)
    (hsafe : AllSafe step Safe s es) (hrun : es.foldlM step s = .ok s') : Inv s' := by
  induction es generalizing s with
  | nil =>
    cases hrun
    exact hs
  | cons e es ih =>
    obtain ⟨he, hrest⟩ := hsafe
    obtain ⟨s1, hstep, hrun⟩ := bind_eq_ok_iff.mp hrun
    grind

/-! ### Failures that are tolerated -/

/-- The run meets no state that is not good, and no failure that is not tolerated. -/
def CorrectUpTo (step : S → E → Except P S) (Good : S → Prop) (Tol : P → Prop) : S → List E → Prop
  | s, [] => Good s
  | s, e :: es => Good s ∧
      match step s e with
      | .ok s' => CorrectUpTo step Good Tol s' es
      | .error p => Tol p

variable {Tol : P → Prop}

lemma CorrectUpTo.good (h : CorrectUpTo step Good Tol s es) : Good s := by
  cases es with
  | nil => exact h
  | cons e es => exact h.1

/-- One condition on steps decides whether a run is correct, among the runs whose steps are all
legal: safe steps keep an invariant, and an unsafe step is where the run goes wrong. -/
theorem correctUpTo_iff_allSafe_of_legal {Legal : S → E → Prop} (Inv : S → Prop) (hgood : ∀ s, Inv s → Good s)
    (hsafe : ∀ s e, Inv s → Legal s e → Safe s e → Except.Ensures Tol (step s e) Inv)
    (hbad : ∀ s e, Inv s → Legal s e → ¬Safe s e →
      Except.Ensures (fun p => ¬Tol p) (step s e) fun s' => ¬Good s')
    (hs : Inv s) (es : List E) (hlegal : AllSafe step Legal s es) :
    CorrectUpTo step Good Tol s es ↔ AllSafe step Safe s es := by
  induction es generalizing s with
  | nil => exact iff_of_true (hgood s hs) trivial
  | cons e es ih =>
    obtain ⟨hle, hrest⟩ := hlegal
    have hsafe := hsafe s e hs hle
    have hbad := hbad s e hs hle
    rw [CorrectUpTo, AllSafe]
    cases hstep : step s e with
    | ok s' =>
      rw [hstep] at hsafe hbad hrest
      by_cases he : Safe s e
      · have hs' : Inv s' := hsafe he
        simp [hgood s hs, he, ih hs' hrest]
      · have hne : ¬Good s' := hbad he
        simp only [he, false_and, iff_false, not_and]
        exact fun _ hrun => hne hrun.good
    | error p =>
      rw [hstep] at hsafe hbad
      by_cases he : Safe s e
      · have hp : Tol p := hsafe he
        simp [hgood s hs, he, hp]
      · have hp : ¬Tol p := hbad he
        simp [he, hp]

/-- Steps that are safe in every state. -/
lemma allSafe_of_forall_mem (h : ∀ e ∈ es, ∀ s, Safe s e) (s : S) : AllSafe step Safe s es :=
  allSafe_of_inv (fun _ => True) (fun s e he _ => h e he s) (fun _ _ _ _ _ _ => trivial) trivial

/-- Two conditions on steps that agree as long as an invariant holds, which safe steps keep, agree on
runs. -/
theorem allSafe_congr_of_legal {Legal Safe' : S → E → Prop} (Inv : S → Prop)
    (hiff : ∀ s e, Inv s → Legal s e → (Safe s e ↔ Safe' s e))
    (hkeep : ∀ s e s', Inv s → Legal s e → Safe s e → step s e = .ok s' → Inv s')
    (hs : Inv s) (es : List E) (hlegal : AllSafe step Legal s es) :
    AllSafe step Safe s es ↔ AllSafe step Safe' s es := by
  induction es generalizing s with
  | nil => rfl
  | cons e es ih =>
    obtain ⟨hle, hrest⟩ := hlegal
    grind [AllSafe]

/-- The same when every step is legal. -/
theorem correctUpTo_iff_allSafe (Inv : S → Prop) (hgood : ∀ s, Inv s → Good s)
    (hsafe : ∀ s e, Inv s → Safe s e → Except.Ensures Tol (step s e) Inv) (hbad : ∀ s e, Inv s → ¬Safe s e →
      Except.Ensures (fun p => ¬Tol p) (step s e) fun s' => ¬Good s')
    (hs : Inv s) (es : List E) : CorrectUpTo step Good Tol s es ↔ AllSafe step Safe s es :=
  correctUpTo_iff_allSafe_of_legal Inv hgood (fun s e h (_ : True) => hsafe s e h)
    (fun s e h (_ : True) => hbad s e h) hs es (allSafe_of_forall_mem (fun _ _ _ => trivial) s)

end UcoreKernel.Guarded
