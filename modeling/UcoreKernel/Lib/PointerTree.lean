import Mathlib.Tactic

/-!
Trees of pointers that are stored in the blocks they point to.

A record holds pointers to blocks, and a block can hold pointers to further blocks; zero is the null
pointer. The places where a pointer can be are the positions of the tree. `Shape` says in which
position's block, and there in which slot, the pointer of a position is stored; positions without
such a parent are in the record itself.
-/

namespace UcoreKernel.PointerTree

open Function

/-- Where the pointers are stored. -/
structure Shape (P : Type) where
  parent : P → Option P
  slot : P → ℕ
  depth : P → ℕ
  depth_parent : ∀ {p q}, parent p = some q → depth q < depth p
  ext : ∀ {p q}, parent p = parent q → slot p = slot q → p = q

variable {P : Type} {S : Shape P} {root root' : ℕ → ℕ} {blk blk' : ℕ → ℕ → ℕ} {ptr ptr' : P → ℕ}

/-- `ptr` gives the pointers that the slots of the record and of the blocks hold. -/
def Reads (S : Shape P) (root : ℕ → ℕ) (blk : ℕ → ℕ → ℕ) (ptr : P → ℕ) : Prop :=
  ∀ p, ptr p = match S.parent p with
    | none => root (S.slot p)
    | some q => if ptr q = 0 then 0 else blk (ptr q) (S.slot p)

/-- Nothing hangs below a position. -/
def Bare (S : Shape P) (ptr : P → ℕ) (p : P) : Prop := ∀ c, S.parent c = some p → ptr c = 0

/-- A block without pointers. -/
def Blank (S : Shape P) (blk : ℕ → ℕ → ℕ) (p : P) (b : ℕ) : Prop :=
  ∀ c, S.parent c = some p → blk b (S.slot c) = 0

namespace Reads

section

variable (h : Reads S root blk ptr)
include h

lemma root_eq {p : P} (hp : S.parent p = none) : ptr p = root (S.slot p) := by
  have := h p
  rwa [hp] at this

lemma child_eq {p q : P} (hp : S.parent p = some q) :
    ptr p = if ptr q = 0 then 0 else blk (ptr q) (S.slot p) := by
  have := h p
  rwa [hp] at this

/-- Nothing hangs below a null pointer. -/
lemma bare {p : P} (hp : ptr p = 0) : Bare S ptr p := fun c hc => by
  rw [h.child_eq hc, if_pos hp]

/-- The pointers are determined by the record and the blocks. -/
lemma unique (h' : Reads S root blk ptr') : ptr = ptr' := by
  have hdepth : ∀ n p, S.depth p < n → ptr p = ptr' p := by
    intro n
    induction n with
    | zero => exact fun p hp => absurd hp (Nat.not_lt_zero _)
    | succ n ih =>
      intro p hp
      cases hparent : S.parent p with
      | none => rw [h.root_eq hparent, h'.root_eq hparent]
      | some q =>
        have hq := S.depth_parent hparent
        rw [h.child_eq hparent, h'.child_eq hparent, ih q (by omega)]
  exact funext fun p => hdepth _ p (Nat.lt_succ_self _)

/-- Only the slots of blocks that are pointed to matter. -/
lemma congr (hroot : ∀ p, S.parent p = none → root' (S.slot p) =
    root (S.slot p)) (hblk : ∀ p q, S.parent p = some q → ptr q ≠ 0 →
      blk' (ptr q) (S.slot p) = blk (ptr q) (S.slot p)) : Reads S root' blk' ptr := by
  intro p
  cases hparent : S.parent p with
  | none => exact (h.root_eq hparent).trans (hroot p hparent).symm
  | some q =>
    rw [h.child_eq hparent]
    by_cases hq : ptr q = 0
    · simp only [hq, if_true]
    · grind

end

variable [DecidableEq P]

variable (h : Reads S root blk ptr)
include h

/-- One position loses its pointer. Those below it are lost with it, and no others. -/
lemma clear (h' : Reads S root' blk' ptr') {p : P}
    (hroot : ∀ q, S.parent q = none → root' (S.slot q) = if q = p then 0 else root (S.slot q))
    (hblk : ∀ q r, S.parent q = some r → ptr r ≠ 0 →
      blk' (ptr r) (S.slot q) = if q = p then 0 else blk (ptr r) (S.slot q)) (q : P) :
    (ptr' q = 0 ∨ q ≠ p ∧ ptr' q = ptr q) ∧ (Bare S ptr p → ptr' q = if q = p then 0 else ptr q) := by
  induction hn : S.depth q using Nat.strong_induction_on generalizing q with
  | _ n ih =>
    have hcases : ptr' q = (if q = p then 0 else ptr q) → ptr' q = 0 ∨ q ≠ p ∧ ptr' q = ptr q := by grind
    cases hparent : S.parent q with
    | none =>
      have heq : ptr' q = if q = p then 0 else ptr q := by
        rw [h.root_eq hparent, h'.root_eq hparent, hroot q hparent]
      exact ⟨hcases heq, fun _ => heq⟩
    | some r =>
      obtain ⟨hlost, hkept⟩ := ih _ (hn ▸ S.depth_parent hparent) r rfl
      have hsame : ptr' r = ptr r → ptr' q = if q = p then 0 else ptr q := by
        intro heq
        rw [h.child_eq hparent, h'.child_eq hparent, heq]
        by_cases hr : ptr r = 0
        · simp [hr]
        · rw [if_neg hr, if_neg hr, hblk q r hparent hr]
      have hbelow : ptr' r = 0 → ptr' q = 0 := fun hr => h'.bare hr q hparent
      refine ⟨hlost.elim (fun hr => .inl (hbelow hr)) fun hr => hcases (hsame hr.2), fun hbare => ?_⟩
      by_cases hrp : r = p
      · rw [hbelow ((hkept hbare).trans (if_pos hrp)), hbare q (hrp ▸ hparent), ite_self]
      · exact hsame ((hkept hbare).trans (if_neg hrp))

/-- The pointer of a position in the record is replaced. -/
lemma setRoot {p : P} (hp : S.parent p = none) {b : ℕ}
    (hbare : Bare S ptr p) (hblank : b = 0 ∨ Blank S blk p b) :
    Reads S (update root (S.slot p) b) blk (update ptr p b) := by
  intro q
  cases hparent : S.parent q with
  | none =>
    obtain rfl | hqp := eq_or_ne q p
    · simp
    · have hslot : S.slot q ≠ S.slot p := fun hslot => hqp (S.ext (hparent.trans hp.symm) hslot)
      rw [update_of_ne hqp, update_of_ne hslot]
      exact h.root_eq hparent
  | some r =>
    have hqp : q ≠ p := by
      rintro rfl
      rw [hp] at hparent
      cases hparent
    simp only [update_of_ne hqp]
    by_cases hrp : r = p
    · -- a position below: there was nothing, and the new block holds nothing
      subst hrp
      rw [hbare q hparent, update_self]
      obtain rfl | hblank := hblank
      · simp
      · simp [hblank q hparent]
    · rw [update_of_ne hrp]
      exact h.child_eq hparent

/-- The pointer of a position in a block is replaced. -/
lemma setChild {p q : P} (hp : S.parent p = some q) (hq : ptr q ≠ 0)
    (honly : ∀ r, ptr r = ptr q → r = q) {b : ℕ} (hb : b ≠ ptr q) (hbare : Bare S ptr p)
    (hblank : b = 0 ∨ Blank S blk p b) (hblk : blk' = update blk (ptr q) (update (blk (ptr q)) (S.slot p) b)) :
    Reads S root blk' (update ptr p b) := by
  intro r
  have hpq : q ≠ p := by
    rintro rfl
    exact lt_irrefl _ (S.depth_parent hp)
  cases hparent : S.parent r with
  | none =>
    have hrp : r ≠ p := by
      rintro rfl
      rw [hp] at hparent
      cases hparent
    rw [update_of_ne hrp]
    exact h.root_eq hparent
  | some t =>
    by_cases htp : t = p
    · -- a position below: there was nothing, and the new block holds nothing
      subst htp
      have hrp : r ≠ t := by grind
      simp only [update_of_ne hrp, update_self]
      rw [hbare r hparent, hblk, update_of_ne hb]
      obtain rfl | hblank := hblank
      · simp
      · simp [hblank r hparent]
    · simp only [update_of_ne htp]
      by_cases htq : t = q
      · -- a position in the same block
        subst htq
        rw [if_neg hq, hblk, update_self]
        obtain rfl | hrp := eq_or_ne r p
        · simp
        · have hslot : S.slot r ≠ S.slot p := fun hslot => hrp (S.ext (hparent.trans hp.symm) hslot)
          rw [update_of_ne hrp, update_of_ne hslot, h.child_eq hparent, if_neg hq]
      · have hrp : r ≠ p := by grind
        rw [update_of_ne hrp, h.child_eq hparent, hblk]
        by_cases ht : ptr t = 0
        · rw [if_pos ht, if_pos ht]
        · rw [if_neg ht, if_neg ht, update_of_ne fun heq => htq (honly t heq)]

end Reads

/-! ### Ownership -/

/-- The blocks that are pointed to are in use, and none is pointed to twice. -/
structure Owns (used : ℕ → Prop) (ptr : P → ℕ) : Prop where
  used : ∀ p, ptr p ≠ 0 → used (ptr p)
  inj : ∀ p q, ptr p ≠ 0 → ptr p = ptr q → p = q

namespace Owns

variable {used used' : ℕ → Prop}

lemma mono (h : Owns used ptr) (hused : ∀ p, ptr p ≠ 0 → used' (ptr p)) : Owns used' ptr :=
  ⟨hused, h.inj⟩

variable [DecidableEq P]

/-- A position gets a block that was not in use. -/
lemma set (h : Owns used ptr) {p : P} {b : ℕ} (hb : ¬used b) (hb' : used' b)
    (hused : ∀ c, used c → used' c) : Owns used' (update ptr p b) := by
  have hne : ∀ q, ptr q ≠ 0 → ptr q ≠ b := fun q hq heq => hb (heq ▸ h.used q hq)
  constructor
  · intro q hq
    obtain rfl | hqp := eq_or_ne q p
    · simpa using hb'
    · rw [update_of_ne hqp] at hq ⊢
      exact hused _ (h.used q hq)
  · intro q r hq hqr
    by_cases hqp : q = p
    · grind
    · rw [update_of_ne hqp] at hq hqr
      by_cases hrp : r = p
      · grind
      · rw [update_of_ne hrp] at hqr
        exact h.inj q r hq hqr

end Owns

end UcoreKernel.PointerTree
