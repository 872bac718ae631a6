import UcoreKernel.Lib.Tally

/-!
Reference counts of objects that can be found again while they wait to be destroyed.

Objects stand in a cache, which is searched and changed under a lock. References are dropped without
the lock. The process that drops the last reference takes the lock to destroy the object, and until
it has the lock another process may find the object and use it again. Each object therefore counts
tickets: one for the users as long as there are any, and one for each process that waits to destroy
it. A process that takes the first reference takes a ticket too, a process that comes to destroy the
object gives one back, and the one that gives the last ticket back destroys the object.

References are with a process (`carry`) or with the users at large (`pool`), where any process may
drop them.
-/

namespace UcoreKernel.Revival

open Tally Function

/-- What a process is doing with an object. -/
inductive Kind where
  /-- It has found the object, and has no reference yet. -/
  | found
  /-- It has taken the first reference, and no ticket yet. -/
  | raised
  /-- It has dropped the last reference, and has given no ticket back yet. -/
  | waits
  /-- It has given the last ticket back. -/
  | last
  /-- It has taken the object out of the cache. -/
  | dying
deriving DecidableEq

/-- The activities for which a process needs the lock. -/
def Kind.Locked : Kind → Prop
  | .found | .raised | .last => True
  | .waits | .dying => False

/-- The life of an object. -/
inductive Stage where
  | unmade
  | fresh
  | linked
  | removed
  | dead
deriving DecidableEq

lemma Kind.forall {Q : Kind → Prop} : (∀ x, Q x) ↔ Q .found ∧ Q .raised ∧ Q .waits ∧ Q .last ∧ Q .dying :=
  ⟨fun h => ⟨h _, h _, h _, h _, h _⟩, fun ⟨h1, h2, h3, h4, h5⟩ x => by cases x <;> assumption⟩

/-- The stages in which a process can be doing something with an object. -/
def Kind.In : Kind → Stage → Prop
  | .found, st | .raised, st | .last, st => st = .linked
  | .waits, st => st = .fresh ∨ st = .linked
  | .dying, st => st = .removed

/-- An object. `kept` says that the last process that came to destroy it has not done so. -/
structure Obj where
  ref : ℕ
  opens : ℕ
  tickets : ℕ
  pool : ℕ
  killed : ℕ
  stage : Stage
  kept : Bool

variable {N P : Type}

/-- The objects, the owner of the lock, what each process is doing, and the references it has. -/
structure Cache (N P : Type) where
  obj : N → Obj
  owner : Option P
  act : P → Option (Kind × N)
  carry : P → Finset N

/-- The number of processes that are doing something with an object. -/
noncomputable def Cache.count (c : Cache N P) (n : N) (k : Kind) : ℕ :=
  tally c.act fun _ a => a = some (k, n)

/-- The number of processes that have a reference. -/
noncomputable def Cache.carried (c : Cache N P) (n : N) : ℕ := tally c.carry fun _ t => n ∈ t

/-! ### The invariant -/

/-- What holds of an object in a stage of its life, when `k` counts the processes that are doing
something with it. -/
def Stage.Holds (o : Obj) (k : Kind → ℕ) : Stage → Prop
  | .unmade => o.ref = 0 ∧ (∀ x, k x = 0) ∧ o.killed = 0
  | .fresh => o.tickets = 1 ∧ k .found = 0 ∧ k .raised = 0 ∧ k .last = 0 ∧ k .dying = 0 ∧
      (o.ref = 0 → k .waits = 1) ∧ (0 < o.ref → k .waits = 0) ∧ o.killed = 0
  | .linked => (o.ref = 0 → o.tickets + k .raised = k .waits) ∧
      (0 < o.ref → o.tickets + k .raised = k .waits + 1) ∧ k .dying = 0 ∧
      (0 < k .last → o.tickets = 0 ∧ o.ref = 0) ∧
      (o.ref = 0 → k .waits = 0 → o.kept = true ∨ 0 < k .last) ∧ o.killed = 0
  | .removed => o.ref = 0 ∧ k .found = 0 ∧ k .raised = 0 ∧ k .waits = 0 ∧ k .last = 0 ∧
      k .dying = 1 ∧ o.killed = 0
  | .dead => o.ref = 0 ∧ (∀ x, k x = 0) ∧ o.killed = 1

/-- What holds of an object, when `k` counts the processes that are doing something with it, and
`carry` those that have a reference. -/
structure ObjInv (o : Obj) (k : Kind → ℕ) (carry : ℕ) : Prop where
  ref : o.ref = o.pool + carry
  opens : o.opens ≤ o.pool
  alone : k .found + k .raised + k .last ≤ 1
  stage : o.stage.Holds o k

/-- The invariant. -/
structure Inv (c : Cache N P) : Prop where
  finite : {p | c.act p ≠ none}.Finite
  finite_carry : {p | c.carry p ≠ ∅}.Finite
  lock : ∀ p k n, c.act p = some (k, n) → k.Locked → c.owner = some p
  obj : ∀ n, ObjInv (c.obj n) (c.count n) (c.carried n)

variable {c c' : Cache N P} {p : P} {n : N}

namespace Inv

variable (hc : Inv c)
include hc

lemma finite_act (n : N) (k : Kind) : {p | c.act p = some (k, n)}.Finite :=
  hc.finite.subset fun p hp => by simp [hp.out]

lemma finite_carries (n : N) : {p | n ∈ c.carry p}.Finite :=
  hc.finite_carry.subset fun _ hp => Finset.ne_empty_of_mem hp.out

/-- A process that is doing something is counted. -/
lemma count_pos {k : Kind} (hp : c.act p = some (k, n)) : 0 < c.count n k := by
  rw [Nat.pos_iff_ne_zero]
  exact fun hzero => not_of_tally_eq_zero (hc.finite_act n k) hzero p hp

lemma carried_pos (hp : n ∈ c.carry p) : 0 < c.carried n := by
  rw [Nat.pos_iff_ne_zero]
  exact fun hzero => not_of_tally_eq_zero (hc.finite_carries n) hzero p hp

/-- Nobody else does anything for which the lock is needed. -/
lemma count_eq_zero (howner : c.owner = some p)
    (hact : ∀ k n, c.act p = some (k, n) → ¬k.Locked) {k : Kind} (hk : k.Locked) (n : N) : c.count n k = 0 := by
  refine tally_eq_zero fun q hq => ?_
  cases howner.symm.trans (hc.lock q k n hq hk)
  exact hact k n hq hk

lemma setOwner {owner : Option P} (hlock : ∀ p k n, c.act p = some (k, n) → k.Locked → owner = some p) :
    Inv { c with owner := owner } :=
  ⟨hc.finite, hc.finite_carry, hlock, hc.obj⟩

/-- The three activities that need the lock are free for its owner. -/
lemma free (howner : c.owner = some p) (hact : ∀ k n, c.act p = some (k, n) → ¬k.Locked) (n : N) :
    c.count n .found = 0 ∧ c.count n .raised = 0 ∧ c.count n .last = 0 :=
  ⟨hc.count_eq_zero howner hact (k := .found) trivial n, hc.count_eq_zero howner hact (k := .raised) trivial n,
    hc.count_eq_zero howner hact (k := .last) trivial n⟩

end Inv

/-! ### What happens to one object -/

namespace ObjInv

variable {o : Obj} {k : Kind → ℕ} {carry carry' : ℕ}

variable (h : ObjInv o k carry)
include h

lemma of_stage {st : Stage} (hst : o.stage = st) : st.Holds o k := hst ▸ h.stage

/-- A process is doing something with the object. -/
lemma stage_of_pos {x : Kind} (hx : 0 < k x) : x.In o.stage := by
  have hstage := h.stage
  cases hst : o.stage <;> rw [hst] at hstage <;> cases x <;> rw [Stage.Holds] at hstage <;>
    grind [Kind.In]

/-- Somebody has a reference. -/
lemma stage_of_ref (href : 0 < o.ref) : Kind.waits.In o.stage := by
  have hstage := h.stage
  cases hst : o.stage <;> rw [hst] at hstage <;> rw [Stage.Holds] at hstage <;>
    grind [Kind.In]

/-- References move between the users and the processes, or one more is taken by somebody who has
one. -/
lemma setRef {ref pool opens : ℕ} (href : ref = pool + carry')
    (hopens : opens ≤ pool) (hpos : 0 < o.ref) (hpos' : 0 < ref) :
    ObjInv { o with ref := ref, pool := pool, opens := opens } k carry' := by
  refine ⟨href, hopens, h.alone, ?_⟩
  have hstage := h.stage
  obtain hst | hst := h.stage_of_ref hpos <;> simp only [hst, Stage.Holds] at hstage ⊢ <;> omega

end ObjInv

/-! ### Steps -/

/-- What a process does with a reference that it drops. -/
def dropped (o : Obj) (n : N) : Option (Kind × N) := if o.ref = 1 then some (.waits, n) else none

section Steps

variable [DecidableEq N] [DecidableEq P]

/-- A process goes on with an object: the object, the activity and the references of the process
change. -/
def Cache.put (c : Cache N P) (p : P) (n : N) (o : Obj) (a : Option (Kind × N)) (t : Finset N) : Cache N P :=
  { c with
    obj := update c.obj n o
    act := update c.act p a
    carry := update c.carry p t }

/-- One step. -/
inductive Step : Cache N P → Cache N P → Prop where
  | lock {c : Cache N P} (p : P) (howner : c.owner = none) : Step c { c with owner := some p }
  | unlock {c : Cache N P} (p : P) (howner : c.owner = some p)
      (hact : ∀ k n, c.act p = some (k, n) → ¬k.Locked) : Step c { c with owner := none }
  /-- An object comes into being, with one reference. -/
  | make {c : Cache N P} (p : P) (n : N) (kept : Bool) (hact : c.act p = none)
      (hstage : (c.obj n).stage = .unmade) :
      Step c (c.put p n ⟨1, 0, 1, 0, 0, .fresh, kept⟩ none (insert n (c.carry p)))
  /-- An object comes into the cache. -/
  | link {c : Cache N P} (p : P) (n : N) (howner : c.owner = some p) (hact : c.act p = none)
      (hcarry : n ∈ c.carry p) (hstage : (c.obj n).stage = .fresh) :
      Step c (c.put p n { c.obj n with stage := .linked } none (c.carry p))
  | find {c : Cache N P} (p : P) (n : N) (howner : c.owner = some p) (hact : c.act p = none)
      (hstage : (c.obj n).stage = .linked) :
      Step c (c.put p n (c.obj n) (some (.found, n)) (c.carry p))
  | take {c : Cache N P} (p : P) (n : N) (hact : c.act p = some (.found, n)) (hcarry : n ∉ c.carry p) :
      Step c (c.put p n { c.obj n with ref := (c.obj n).ref + 1, kept := false }
        (if (c.obj n).ref = 0 then some (.raised, n) else none) (insert n (c.carry p)))
  | ticket {c : Cache N P} (p : P) (n : N) (hact : c.act p = some (.raised, n)) :
      Step c (c.put p n { c.obj n with tickets := (c.obj n).tickets + 1 } none (c.carry p))
  /-- A process gives its reference to the users. -/
  | settle {c : Cache N P} (p : P) (n : N) (hact : c.act p = none) (hcarry : n ∈ c.carry p) :
      Step c (c.put p n { c.obj n with pool := (c.obj n).pool + 1 } none ((c.carry p).erase n))
  /-- A user takes another reference. -/
  | copy {c : Cache N P} (p : P) (n : N) (hact : c.act p = none) (hpool : 0 < (c.obj n).pool) :
      Step c (c.put p n { c.obj n with ref := (c.obj n).ref + 1, pool := (c.obj n).pool + 1 } none
        (c.carry p))
  | opened {c : Cache N P} (p : P) (n : N) (hact : c.act p = none)
      (hpool : (c.obj n).opens < (c.obj n).pool) :
      Step c (c.put p n { c.obj n with opens := (c.obj n).opens + 1 } none (c.carry p))
  | closed {c : Cache N P} (p : P) (n : N) (hact : c.act p = none) (hopens : 0 < (c.obj n).opens) :
      Step c (c.put p n { c.obj n with opens := (c.obj n).opens - 1 } none (c.carry p))
  /-- A reference of the users is dropped. -/
  | drop {c : Cache N P} (p : P) (n : N) (hact : c.act p = none) (hpool : (c.obj n).opens < (c.obj n).pool) :
      Step c (c.put p n { c.obj n with ref := (c.obj n).ref - 1, pool := (c.obj n).pool - 1 }
        (dropped (c.obj n) n) (c.carry p))
  /-- A process drops its own reference. -/
  | dropOwn {c : Cache N P} (p : P) (n : N) (hact : c.act p = none) (hcarry : n ∈ c.carry p) :
      Step c (c.put p n { c.obj n with ref := (c.obj n).ref - 1 } (dropped (c.obj n) n) ((c.carry p).erase n))
  | give {c : Cache N P} (p : P) (n : N) (howner : c.owner = some p)
      (hact : c.act p = some (.waits, n)) (hstage : (c.obj n).stage = .linked) :
      Step c (c.put p n { c.obj n with tickets := (c.obj n).tickets - 1 }
        (if (c.obj n).tickets = 1 then some (.last, n) else none) (c.carry p))
  | keep {c : Cache N P} (p : P) (n : N) (hact : c.act p = some (.last, n)) :
      Step c (c.put p n { c.obj n with kept := true } none (c.carry p))
  | remove {c : Cache N P} (p : P) (n : N) (hact : c.act p = some (.last, n)) :
      Step c (c.put p n { c.obj n with stage := .removed } (some (.dying, n)) (c.carry p))
  | kill {c : Cache N P} (p : P) (n : N) (hact : c.act p = some (.dying, n)) :
      Step c (c.put p n { c.obj n with tickets := 0, stage := .dead, killed := (c.obj n).killed + 1 }
        none (c.carry p))
  /-- An object that was never in the cache is destroyed without the lock. -/
  | killFresh {c : Cache N P} (p : P) (n : N) (hact : c.act p = some (.waits, n))
      (hstage : (c.obj n).stage = .fresh) :
      Step c (c.put p n { c.obj n with tickets := 0, stage := .dead, killed := (c.obj n).killed + 1 }
        none (c.carry p))

namespace Inv

variable {a : Option (Kind × N)} {t : Finset N} {o : Obj}

/-- A process goes on with an object. The counts of the object change with the activity and the
references of the process, and nothing changes for the other objects. -/
lemma put (hc : Inv c)
    (hold : ∀ k m, c.act p = some (k, m) → m = n) (hnew : ∀ k m, a = some (k, m) → m = n)
    (hcarry : ∀ m, m ≠ n → (m ∈ t ↔ m ∈ c.carry p))
    (hlock : ∀ k m, a = some (k, m) → k.Locked → c.owner = some p)
    (hobj : ∀ k' carry', (∀ k, k' k + (if c.act p = some (k, n) then 1 else 0) =
        c.count n k + if a = some (k, n) then 1 else 0) →
      carry' + (if n ∈ c.carry p then 1 else 0) = c.carried n + (if n ∈ t then 1 else 0) →
      ObjInv o k' carry') : Inv (c.put p n o a t) := by
  have hact : ∀ m k, (c.put p n o a t).count m k + (if c.act p = some (k, m) then 1 else 0) =
      c.count m k + if a = some (k, m) then 1 else 0 := fun m k =>
    tally_update (fun _ a => a = some (k, m)) (hc.finite_act m k) p a
  have hcarries : ∀ m, (c.put p n o a t).carried m + (if m ∈ c.carry p then 1 else 0) =
      c.carried m + if m ∈ t then 1 else 0 := fun m =>
    tally_update (fun _ t => m ∈ t) (hc.finite_carries m) p t
  constructor
  case finite => exact finite_update (fun _ a => a ≠ none) hc.finite p a
  case finite_carry => exact finite_update (fun _ t => t ≠ ∅) hc.finite_carry p t
  case lock =>
    intro q k m hq hk
    obtain rfl | hqp := eq_or_ne q p
    · exact hlock k m (by simpa [Cache.put] using hq) hk
    · exact hc.lock q k m (by simpa [Cache.put, update_of_ne hqp] using hq) hk
  case obj =>
    intro m
    obtain rfl | hm := eq_or_ne m n
    · have hself : (c.put p m o a t).obj m = o := update_self _ _ _
      rw [hself]
      exact hobj _ _ (hact m) (hcarries m)
    · have hne : (c.put p n o a t).obj m = c.obj m := update_of_ne hm _ _
      have hcount : (c.put p n o a t).count m = c.count m := by grind
      have hcarried : (c.put p n o a t).carried m = c.carried m := by grind
      rw [hne, hcount, hcarried]
      exact hc.obj m

/-- The same for a process that does nothing else before and after. -/
lemma put_idle (hc : Inv c) (hact : c.act p = none) (hcarry : ∀ m, m ≠ n → (m ∈ t ↔ m ∈ c.carry p))
    (hobj : ∀ carry', carry' + (if n ∈ c.carry p then 1 else 0) =
      c.carried n + (if n ∈ t then 1 else 0) → ObjInv o (c.count n) carry') : Inv (c.put p n o none t) := by
  refine hc.put (fun k m h => ?_) nofun hcarry nofun fun k' carry' hk hcarried => ?_
  · rw [hact] at h
    cases h
  · obtain rfl : k' = c.count n := by
      funext k
      simpa [hact] using hk k
    exact hobj carry' hcarried

/-- The same for a process that keeps its references. -/
lemma put_act (hc : Inv c)
    (hold : ∀ k m, c.act p = some (k, m) → m = n) (hnew : ∀ k m, a = some (k, m) → m = n)
    (hlock : ∀ k m, a = some (k, m) → k.Locked → c.owner = some p)
    (hobj : ∀ k', (∀ k, k' k + (if c.act p = some (k, n) then 1 else 0) =
        c.count n k + if a = some (k, n) then 1 else 0) → ObjInv o k' (c.carried n)) :
    Inv (c.put p n o a (c.carry p)) := by
  refine hc.put hold hnew (fun _ _ => Iff.rfl) hlock fun k' _ _ _ => ?_
  grind

end Inv

/-- Every step keeps the invariant. -/
lemma Step.inv (hstep : Step c c') (hc : Inv c) : Inv c' := by
  cases hstep with
  | lock p howner =>
    refine hc.setOwner fun q k n hq hk => ?_
    rw [hc.lock q k n hq hk] at howner
    cases howner
  | unlock p howner hact =>
    refine hc.setOwner fun q k n hq hk => ?_
    cases howner.symm.trans (hc.lock q k n hq hk)
    exact absurd hk (hact k n hq)
  | make p n kept hact hstage =>
    refine hc.put_idle hact (fun m hm => by simp [hm]) fun carry' hcarry => ?_
    obtain ⟨href, hk, -⟩ := (hc.obj n).of_stage hstage
    have hnot : n ∉ c.carry p := fun hmem => by
      have := (hc.obj n).ref
      have := hc.carried_pos hmem
      omega
    simp only [hnot, if_false, Finset.mem_insert_self, if_true] at hcarry
    have hpool := (hc.obj n).ref
    exact ⟨by dsimp only; omega, le_rfl, by simp [hk], by simp [Stage.Holds, hk]⟩
  | link p n howner hact hcarry hstage =>
    refine hc.put_idle hact (fun _ _ => Iff.rfl) fun carry' hcarry' => ?_
    obtain ⟨href, hopens, halone, hold⟩ := hc.obj n
    have hpos := hc.carried_pos hcarry
    refine ⟨by grind, hopens, halone, ?_⟩
    grind [Stage.Holds]
  | find p n howner hact hstage | give p n howner hact hstage =>
    have hfree := hc.free howner (by grind [Kind.Locked]) n
    refine hc.put_act (by simp [hact]) (by grind) (fun _ _ _ _ => howner) fun k' hk => ?_
    obtain ⟨href, hopens, halone, hold⟩ := hc.obj n
    simp [Kind.forall, hact] at hk
    exact ⟨href, hopens, by grind, by grind [Stage.Holds]⟩
  | take p n hact hcarry =>
    have howner : c.owner = some p := hc.lock p .found n hact trivial
    refine hc.put (by simp [hact]) (by grind) (fun m hm => by simp [hm])
      (fun _ _ _ _ => howner) fun k' carry' hk hcarry' => ?_
    have hst : (c.obj n).stage = .linked := (hc.obj n).stage_of_pos (hc.count_pos hact)
    obtain ⟨href, hopens, halone, hold⟩ := hc.obj n
    exact ⟨by grind, hopens, by grind, by grind [Stage.Holds]⟩
  | ticket p n hact | keep p n hact | remove p n hact =>
    refine hc.put_act (by simp [hact]) (by simp) (by grind [Kind.Locked]) fun k' hk => ?_
    have hst : (c.obj n).stage = .linked := (hc.obj n).stage_of_pos (hc.count_pos hact)
    obtain ⟨href, hopens, halone, hold⟩ := hc.obj n
    simp [Kind.forall, hact] at hk
    exact ⟨href, hopens, by grind, by grind [Stage.Holds]⟩
  | settle p n hact hcarry =>
    have hpos := hc.carried_pos hcarry
    have href := (hc.obj n).ref
    refine hc.put_idle hact (fun m hm => by simp [hm]) fun carry' hcarry' => ?_
    rw [if_pos hcarry, if_neg (Finset.notMem_erase n _)] at hcarry'
    exact (hc.obj n).setRef (by omega) ((hc.obj n).opens.trans (Nat.le_succ _)) (by omega) (by omega)
  | copy p n hact hpool | opened p n hact hpool | closed p n hact hpool =>
    have href := (hc.obj n).ref
    have hle := (hc.obj n).opens
    refine hc.put_idle hact (fun _ _ => Iff.rfl) fun carry' hcarry' => ?_
    exact (hc.obj n).setRef (by omega) (by omega) (by omega) (by omega)
  | drop p n hact hpool =>
    refine hc.put_act (by simp [hact]) (by grind [dropped]) (by grind [dropped, Kind.Locked]) fun k' hk => ?_
    have hst := (hc.obj n).stage_of_ref (by have := (hc.obj n).ref; omega)
    obtain ⟨href, hopens, halone, hold⟩ := hc.obj n
    simp [Kind.forall, hact, dropped] at hk
    exact ⟨by grind, by grind, by grind, by grind [Stage.Holds, Kind.In]⟩
  | dropOwn p n hact hcarry =>
    have hpos := hc.carried_pos hcarry
    refine hc.put (by simp [hact]) (by grind [dropped]) (fun m hm => by simp [hm]) (by grind [dropped, Kind.Locked])
      fun k' carry' hk hcarry' => ?_
    have hst := (hc.obj n).stage_of_ref (by have := (hc.obj n).ref; omega)
    obtain ⟨href, hopens, halone, hold⟩ := hc.obj n
    simp [Kind.forall, hact, dropped] at hk
    exact ⟨by grind, by grind, by grind, by grind [Stage.Holds, Kind.In]⟩
  | kill p n hact | killFresh p n hact hstage =>
    have hpos := hc.count_pos hact
    have hin := (hc.obj n).stage_of_pos hpos
    refine hc.put_act (by simp [hact]) (by simp) (by simp) fun k' hk => ?_
    obtain ⟨href, hopens, halone, hold⟩ := hc.obj n
    simp [Kind.forall, hact] at hk
    exact ⟨href, hopens, by grind, by simp only [Stage.Holds, Kind.forall] at hold ⊢; grind⟩

end Steps

/-! ### Consequences -/

namespace Inv

variable (hc : Inv c)
include hc

/-- The tickets of an object that is not being destroyed. -/
lemma tickets_eq (hst : Kind.waits.In (c.obj n).stage) : (c.obj n).tickets + c.count n .raised =
      c.count n .waits + if 0 < (c.obj n).ref then 1 else 0 := by
  obtain hst | hst := hst <;> have hstage := (hc.obj n).of_stage hst <;>
    rw [Stage.Holds] at hstage <;> split_ifs <;> omega

lemma killed_le_one (n : N) : (c.obj n).killed ≤ 1 := by
  have hstage := (hc.obj n).stage
  cases hst : (c.obj n).stage <;> rw [hst] at hstage <;> rw [Stage.Holds] at hstage <;> omega

/-- A process that comes to destroy an object has a ticket to give back. -/
lemma tickets_pos (howner : c.owner = some p) (hact : c.act p = some (.waits, n))
    (hst : (c.obj n).stage = .linked) : 0 < (c.obj n).tickets := by
  have hpos := hc.count_pos hact
  have hfree := hc.free howner (fun k m h => by rw [hact] at h; cases h; exact id) n
  have hstage := (hc.obj n).of_stage hst
  rw [Stage.Holds] at hstage
  omega

/-- Nobody has an object whose last ticket has been given back. -/
lemma of_last (hact : c.act p = some (.last, n)) :
    (c.obj n).stage = .linked ∧ (c.obj n).tickets = 0 ∧ (c.obj n).ref = 0 ∧ (c.obj n).opens = 0 := by
  have hpos := hc.count_pos hact
  have hst : (c.obj n).stage = .linked := (hc.obj n).stage_of_pos hpos
  have hstage := (hc.obj n).of_stage hst
  rw [Stage.Holds] at hstage
  have href := (hc.obj n).ref
  have hopens := (hc.obj n).opens
  refine ⟨hst, ?_⟩
  omega

/-- A process is alone with an object. -/
lemma alone {k : Kind} (hact : c.act p = some (k, n)) (hone : c.count n k ≤ 1)
    (hzero : ∀ k', k' ≠ k → c.count n k' = 0) (q : P) (k' : Kind) (hq : c.act q = some (k', n)) : q = p := by
  obtain rfl : k' = k := by_contra fun hne => (hc.count_pos hq).ne' (hzero k' hne)
  exact eq_of_tally_le_one (hc.finite_act n k') hone hq hact

/-- Nobody has an object that is being destroyed, and nobody else is doing anything with it. -/
lemma of_dying (hact : c.act p = some (.dying, n)) :
    (c.obj n).stage = .removed ∧ (c.obj n).ref = 0 ∧ (c.obj n).opens = 0 ∧ (c.obj n).killed = 0 ∧
      (∀ q, n ∉ c.carry q) ∧ ∀ q k, c.act q = some (k, n) → q = p := by
  have hst : (c.obj n).stage = .removed := (hc.obj n).stage_of_pos (hc.count_pos hact)
  obtain ⟨href, hfound, hraised, hwaits, hlast, hdying, hkilled⟩ := (hc.obj n).of_stage hst
  have hsum := (hc.obj n).ref
  have hopens := (hc.obj n).opens
  refine ⟨hst, href, by omega, hkilled, fun q hq => ?_, hc.alone hact hdying.le fun k hk => ?_⟩
  · have hcarried := hc.carried_pos hq
    omega
  · cases k <;> first | exact absurd rfl hk | assumption

/-- An object that was never in the cache, when its last reference has been dropped. -/
lemma of_waits_fresh (hact : c.act p = some (.waits, n)) (hst : (c.obj n).stage = .fresh) :
    (c.obj n).ref = 0 ∧ (c.obj n).opens = 0 ∧ (c.obj n).killed = 0 ∧
      (∀ q, n ∉ c.carry q) ∧ ∀ q k, c.act q = some (k, n) → q = p := by
  have hpos := hc.count_pos hact
  obtain ⟨-, hfound, hraised, hlast, hdying, hzero, hone, hkilled⟩ := (hc.obj n).of_stage hst
  have hsum := (hc.obj n).ref
  have hopens := (hc.obj n).opens
  have href : (c.obj n).ref = 0 := by omega
  refine ⟨href, by omega, hkilled, fun q hq => ?_, hc.alone hact (hzero href).le fun k hk => ?_⟩
  · have hcarried := hc.carried_pos hq
    omega
  · cases k <;> first | exact absurd rfl hk | assumption

/-- An object without references is waited for, or was kept, or is destroyed. -/
lemma of_ref_eq_zero (href : (c.obj n).ref = 0) (hst : (c.obj n).stage ≠ .unmade)
    (hkept : (c.obj n).kept = false) : (c.obj n).killed = 1 ∨ ∃ p k, c.act p = some (k, n) := by
  have hsome : ∀ k, 0 < c.count n k → ∃ p k, c.act p = some (k, n) := fun k hk => by
    by_contra hnone
    push Not at hnone
    exact hk.ne' (tally_eq_zero fun p => hnone p k)
  have hstage := (hc.obj n).stage
  cases hs : (c.obj n).stage <;> rw [hs] at hstage <;> rw [Stage.Holds] at hstage
  case unmade => exact absurd hs hst
  case fresh => exact .inr (hsome .waits (by omega))
  case linked =>
    by_cases hwaits : 0 < c.count n .waits
    · exact .inr (hsome .waits hwaits)
    · grind
  case removed => exact .inr (hsome .dying (by omega))
  case dead => exact .inl hstage.2.2

end Inv

end UcoreKernel.Revival
