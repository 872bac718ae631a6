import UcoreKernel.Lib.Guarded

/-!
Process ids: `get_pid` of `process/proc.c`, with the forks and exits that use it.

`get_pid` keeps the last id that it gave out and an upper end of the ids that are known to be free
above it. When they are used up it walks the list of processes, in any order, until it comes through
the list without having met its candidate. A candidate beyond the last id is replaced by 1, and not by
the number of processors, whose idle processes have the ids below.

* `pid_iff`: the ids stay different and in range exactly as long as no fork finds all ids above the
  last one taken, unless there is one processor.
-/

/-- `MAX_PROCESS`. -/
def UcoreKernel.Process.maxProcess : ℤ := 4096

/-- `MAX_PID`. -/
def UcoreKernel.Process.maxPid : ℤ := UcoreKernel.Process.maxProcess * 2

namespace UcoreKernel.Pid

open Guarded List
open Process (maxProcess maxPid)

/-- The processes other than the idle ones, by their ids and in the order of `proc_list`, and the static
variables of `get_pid`. -/
structure Pids where
  list : List ℤ
  nextSafe : ℤ
  lastPid : ℤ
  nrProcess : ℤ

/-- How a walk along the list ends. -/
inductive Pass where
  | done (lastPid nextSafe : ℤ)
  | again (lastPid : ℤ)
deriving DecidableEq

/-- The walk along the list. -/
def scanList : List ℤ → ℤ → ℤ → Pass
  | [], lastPid, nextSafe => .done lastPid nextSafe
  | pid :: le, lastPid, nextSafe =>
    if pid = lastPid then
      if lastPid + 1 ≥ nextSafe then .again (if lastPid + 1 ≥ maxPid then 1 else lastPid + 1)
      else scanList le (lastPid + 1) nextSafe
    else if pid > lastPid ∧ nextSafe > pid then scanList le lastPid pid
    else scanList le lastPid nextSafe

/-- The walks, from `inside` on; there is no result if `fuel` of them are not enough. -/
def scan (list : List ℤ) : ℕ → ℤ → Option (ℤ × ℤ)
  | 0, _ => none
  | fuel + 1, lastPid =>
    match scanList list lastPid maxPid with
    | .done lastPid nextSafe => some (lastPid, nextSafe)
    | .again lastPid => scan list fuel lastPid

/-- `get_pid`, with the new values of its static variables. -/
def getPid (fuel lcpuCount : ℕ) (s : Pids) : Option (ℤ × ℤ) :=
  if s.lastPid + 1 ≥ maxPid then scan s.list fuel lcpuCount
  else if s.lastPid + 1 ≥ s.nextSafe then scan s.list fuel (s.lastPid + 1)
  else some (s.lastPid + 1, s.nextSafe)

/-- What happens to processes. -/
inductive Event where
  | fork
  | exit (pid : ℤ)
  /-- `proc_init_ap` -/
  | initAp
deriving DecidableEq

/-- `get_pid` does not return. -/
inductive Panic where
  | diverges
deriving DecidableEq

/-- One step. A fork with too many processes fails before it comes to `get_pid`; a process leaves the
list in `do_wait`. -/
def step (fuel lcpuCount : ℕ) (s : Pids) : Event → Except Panic Pids
  | .fork =>
    if s.nrProcess ≥ maxProcess then .ok s
    else
      match getPid fuel lcpuCount s with
      | none => .error .diverges
      | some (lastPid, nextSafe) => .ok ⟨lastPid :: s.list, nextSafe, lastPid, s.nrProcess + 1⟩
  | .exit pid =>
    if pid ∈ s.list then .ok { s with list := s.list.erase pid, nrProcess := s.nrProcess - 1 }
    else .ok s
  | .initAp => .ok { s with nrProcess := s.nrProcess + 1 }

/-- The state in `proc_init`, with the idle process of the first processor. -/
def procInit : Pids := ⟨[], maxPid, maxPid, 1⟩

/-! ### A walk -/

section Scan

variable {list : List ℤ} {last safe l s : ℤ}

/-- A walk that comes to the end leaves a candidate that no process has, and an end up to which no
process has an id. Below the candidate, all are taken. -/
lemma scanList_done (seen : List ℤ) (hlt : last < safe) (hseen : ∀ p ∈ seen, ¬(last ≤ p ∧ p < safe))
    (h : scanList list last safe = .done l s) :
    last ≤ l ∧ l < s ∧ s ≤ safe ∧ (∀ p ∈ seen ++ list, ¬(l ≤ p ∧ p < s)) ∧
      ∀ q, last ≤ q → q < l → q ∈ list := by
  induction list generalizing seen last safe with
  | nil =>
    cases h
    grind
  | cons pid le ih =>
    have hperm : ∀ p, p ∈ (pid :: seen) ++ le ↔ p ∈ seen ++ pid :: le := by grind
    rw [scanList] at h
    split_ifs at h with heq hsafe hnear
    · obtain ⟨h1, h2, h3, h4, h5⟩ := ih (pid :: seen) (by omega) (fun p hp => by grind) h
      refine ⟨by omega, h2, h3, fun p hp => h4 p ((hperm p).mpr hp), fun q hq hq' => ?_⟩
      by_cases hqp : q = pid
      · rw [hqp]
        exact (.head _)
      · exact .tail _ (h5 q (by omega) hq')
    · obtain ⟨h1, h2, h3, h4, h5⟩ := ih (pid :: seen) (by omega) (fun p hp => by grind) h
      grind
    · obtain ⟨h1, h2, h3, h4, h5⟩ := ih (pid :: seen) hlt (fun p hp => by grind) h
      grind

/-- A walk that starts again has met all ids up to the one below its new candidate. -/
lemma scanList_again (hlt : last < safe) (h : scanList list last safe = .again l) :
    ∃ m, last ≤ m ∧ m < safe ∧ (∀ q, last ≤ q → q ≤ m → q ∈ list) ∧
      l = if m + 1 ≥ maxPid then 1 else m + 1 := by
  induction list generalizing last safe with
  | nil => cases h
  | cons pid le ih =>
    rw [scanList] at h
    split_ifs at h with heq hsafe hwrap hnear
    · refine ⟨last, le_rfl, hlt, fun q hq hq' => ?_, ?_⟩
      · grind
      · cases h
        rw [if_pos hwrap]
    · refine ⟨last, le_rfl, hlt, fun q hq hq' => ?_, ?_⟩
      · grind
      · cases h
        rw [if_neg hwrap]
    · obtain ⟨m, h1, h2, h3, h4⟩ := ih (by omega) h
      refine ⟨m, by omega, h2, fun q hq hq' => ?_, h4⟩
      by_cases hqp : q = pid
      · rw [hqp]
        exact (.head _)
      · exact .tail _ (h3 q (by omega) hq')
    · grind
    · grind

/-- What a scan leaves: an id that no process has, and an end up to which no process has one. -/
def Fresh (list : List ℤ) (l s : ℤ) : Prop := l < s ∧ s ≤ maxPid ∧ ∀ p ∈ list, ¬(l ≤ p ∧ p < s)

/-- If an id from the candidate on is free, the scan finds the first one. -/
lemma scan_of_free {f : ℤ} (fuel : ℕ) (hlast : last ≤ f) (hf : f < maxPid) (hfree : f ∉ list)
    (hfuel : f - last < fuel) : ∃ l s, scan list fuel last = some (l, s) ∧ last ≤ l ∧ l ≤ f ∧ Fresh list l s ∧
      ∀ q, last ≤ q → q < l → q ∈ list := by
  induction fuel generalizing last with
  | zero => omega
  | succ fuel ih =>
    have hlt : last < maxPid := by omega
    rw [scan]
    cases hpass : scanList list last maxPid with
    | done l s =>
      obtain ⟨h1, h2, h3, h4, h5⟩ := scanList_done [] hlt (by simp) hpass
      refine ⟨l, s, rfl, h1, ?_, ⟨h2, h3, by simpa using h4⟩, h5⟩
      by_contra hlf
      exact hfree (h5 f hlast (by omega))
    | again l =>
      obtain ⟨m, h1, h2, h3, h4⟩ := scanList_again hlt hpass
      have hmf : m < f := by grind
      subst h4
      obtain ⟨l, s, hscan, h5, h6, h7, h8⟩ := ih (by omega : m + 1 ≤ f) (by push_cast at hfuel; omega)
      grind

/-- If all ids from the candidate on are taken, the scan goes on at 1. -/
lemma scan_of_full {f : ℤ} (fuel : ℕ) (hlast : last < maxPid)
    (hfull : ∀ q, last ≤ q → q < maxPid → q ∈ list) (hf1 : 1 ≤ f) (hf : f < maxPid) (hfree : f ∉ list)
    (hfuel : (maxPid - last) + f < fuel) :
    ∃ l s, scan list fuel last = some (l, s) ∧ 1 ≤ l ∧ l ≤ f ∧ Fresh list l s := by
  induction fuel generalizing last with
  | zero => omega
  | succ fuel ih =>
    rw [scan]
    cases hpass : scanList list last maxPid with
    | done l s =>
      -- the candidate would be free
      obtain ⟨h1, h2, h3, h4, -⟩ := scanList_done [] hlast (by simp) hpass
      grind
    | again l =>
      obtain ⟨m, h1, h2, h3, h4⟩ := scanList_again hlast hpass
      split_ifs at h4 with hwrap
      · subst h4
        obtain ⟨l, s, hscan, h5, h6, h7, -⟩ := scan_of_free fuel hf1 hf hfree (by omega)
        exact ⟨l, s, hscan, h5, h6, h7⟩
      · subst h4
        exact ih (by omega) (fun q hq hq' => hfull q (by omega) hq') (by omega)

end Scan

/-- A range with more ids than there are processes has a free one. -/
lemma exists_free (list : List ℤ) (a b : ℤ) (h : list.length < b - a) : ∃ f, a ≤ f ∧ f < b ∧ f ∉ list := by
  by_contra hnone
  push Not at hnone
  have hsub : Finset.Ico a b ⊆ list.toFinset := fun f hf => by
    rw [Finset.mem_Ico] at hf
    exact mem_toFinset.mpr (hnone f hf.1 hf.2)
  have hcard := (Finset.card_le_card hsub).trans list.toFinset_card_le
  rw [Int.card_Ico] at hcard
  omega

/-! ### Runs -/

/-- The ids are different, and none is the id of an idle process. -/
def Good (lcpuCount : ℕ) (s : Pids) : Prop :=
  s.list.Nodup ∧ ∀ p ∈ s.list, lcpuCount ≤ p ∧ p < maxPid

/-- A fork finds a free id above the last one, or begins again at the number of processors, or there is
only one of them. -/
def Roomy (lcpuCount : ℕ) (s : Pids) : Event → Prop
  | .fork => s.nrProcess < maxProcess → lcpuCount ≤ 1 ∨ maxPid ≤ s.lastPid + 1 ∨
      ∃ f, s.lastPid < f ∧ f < maxPid ∧ f ∉ s.list
  | _ => True

/-- The invariant: besides that, no process has an id between the two static variables. -/
structure Inv (lcpuCount : ℕ) (s : Pids) : Prop where
  good : Good lcpuCount s
  gap : ∀ p ∈ s.list, ¬(s.lastPid < p ∧ p < s.nextSafe)
  low : lcpuCount ≤ s.lastPid
  safe : s.nextSafe ≤ maxPid
  length : s.list.length < s.nrProcess

variable {fuel lcpuCount : ℕ} {s s' : Pids}

section

variable (hs : Inv lcpuCount s)
include hs

/-- The new process is put into the list. -/
lemma Inv.cons {l n : ℤ} (hlow : lcpuCount ≤ l) (hfresh : Fresh s.list l n) :
    Inv lcpuCount ⟨l :: s.list, n, l, s.nrProcess + 1⟩ where
  good := by
    obtain ⟨hlt, hmax, hnot⟩ := hfresh
    refine ⟨nodup_cons.mpr ⟨fun hmem => hnot l hmem ⟨le_rfl, hlt⟩, hs.good.1⟩, fun p hp => ?_⟩
    obtain rfl | hp := mem_cons.mp hp
    · exact ⟨hlow, by omega⟩
    · exact hs.good.2 p hp
  gap := fun p hp hbetween => by
    obtain rfl | hp := mem_cons.mp hp
    · exact lt_irrefl _ hbetween.1
    · exact hfresh.2.2 p hp ⟨hbetween.1.le, hbetween.2⟩
  low := hlow
  safe := hfresh.2.1
  length := by
    have := hs.length
    simp only [length_cons]
    omega

/-- `get_pid` returns an id that is not below the number of processors, if there is room for it. -/
lemma getPid_spec (hcpus : lcpuCount < maxProcess) (hfuel : 16384 ≤ fuel)
    (hnr : s.nrProcess < maxProcess) (hroom : Roomy lcpuCount s .fork) :
    ∃ l n, getPid fuel lcpuCount s = some (l, n) ∧ lcpuCount ≤ l ∧ Fresh s.list l n := by
  have hlength := hs.length
  have hlow := hs.low
  have hmax : maxPid = 8192 ∧ maxProcess = 4096 := ⟨rfl, rfl⟩
  unfold getPid
  split_ifs with hend hsafe
  · obtain ⟨f, hf, hf', hfree⟩ := exists_free s.list lcpuCount maxPid (by omega)
    obtain ⟨l, n, hscan, hl, -, hfresh, -⟩ := scan_of_free fuel hf hf' hfree (by omega)
    exact ⟨l, n, hscan, hl, hfresh⟩
  · by_cases hfull : ∀ q, s.lastPid + 1 ≤ q → q < maxPid → q ∈ s.list
    · -- all ids above are taken, so there is one processor, and the scan may begin again at 1
      have hone : lcpuCount ≤ 1 := by
        obtain hone | hlast | ⟨f, hf, hf', hfree⟩ := hroom hnr
        · exact_mod_cast hone
        · omega
        · exact absurd (hfull f (by omega) hf') hfree
      obtain ⟨f, hf, hf', hfree⟩ := exists_free s.list 1 maxPid (by omega)
      obtain ⟨l, n, hscan, hl, -, hfresh⟩ := scan_of_full fuel (by omega) hfull hf hf' hfree (by omega)
      exact ⟨l, n, hscan, by omega, hfresh⟩
    · push Not at hfull
      obtain ⟨f, hf, hf', hfree⟩ := hfull
      obtain ⟨l, n, hscan, hl, -, hfresh, -⟩ := scan_of_free fuel hf hf' hfree (by omega)
      exact ⟨l, n, hscan, by omega, hfresh⟩
  · refine ⟨_, _, rfl, by omega, by omega, hs.safe, fun p hp hbetween => ?_⟩
    exact hs.gap p hp ⟨by omega, hbetween.2⟩

/-- Without room, it returns 1. -/
lemma getPid_eq_one (hfuel : 16384 ≤ fuel)
    (hroom : ¬Roomy lcpuCount s .fork) : ∃ n, getPid fuel lcpuCount s = some (1, n) := by
  have hlow := hs.low
  have hmax : maxPid = 8192 ∧ maxProcess = 4096 := ⟨rfl, rfl⟩
  rw [Roomy] at hroom
  push Not at hroom
  obtain ⟨-, hcpus, hlast, hfull⟩ := hroom
  have hfull' : ∀ q, s.lastPid + 1 ≤ q → q < maxPid → q ∈ s.list := fun q hq hq' =>
    hfull q (by omega) hq'
  -- the next id is taken, so the scan is needed
  have hsafe : s.nextSafe ≤ s.lastPid + 1 := by
    by_contra hlt
    exact hs.gap _ (hfull' _ le_rfl hlast) ⟨by omega, by omega⟩
  have hfree : 1 ∉ s.list := fun hmem => by
    have := (hs.good.2 1 hmem).1
    omega
  obtain ⟨l, n, hscan, hl, hl', -⟩ := scan_of_full fuel hlast hfull' le_rfl (by omega) hfree (by omega)
  grind [getPid]

end

lemma inv_procInit (hcpus : lcpuCount < maxProcess) : Inv lcpuCount procInit := by
  have hmax : maxPid = 8192 ∧ maxProcess = 4096 := ⟨rfl, rfl⟩
  refine ⟨⟨nodup_nil, nofun⟩, nofun, ?_, le_rfl, ?_⟩
  · show lcpuCount ≤ maxPid
    omega
  · simp [procInit]

/-- A step with room keeps the invariant. -/
lemma step_spec (hcpus : lcpuCount < maxProcess) (hfuel : 16384 ≤ fuel) (hs : Inv lcpuCount s)
    (e : Event) (hroom : Roomy lcpuCount s e) : ∃ s', step fuel lcpuCount s e = .ok s' ∧ Inv lcpuCount s' := by
  cases e with
  | fork =>
    rw [step]
    split_ifs with hnr
    · exact ⟨s, rfl, hs⟩
    · obtain ⟨l, n, hpid, hlow, hfresh⟩ := getPid_spec hs hcpus hfuel (by omega) hroom
      rw [hpid]
      exact ⟨_, rfl, hs.cons hlow hfresh⟩
  | exit pid =>
    rw [step]
    split_ifs with hmem
    · refine ⟨_, rfl, ⟨hs.good.1.erase pid, fun p hp => hs.good.2 p (mem_of_mem_erase hp)⟩,
        fun p hp => hs.gap p (mem_of_mem_erase hp), hs.low, hs.safe, ?_⟩
      have hlength := hs.length
      grind
    · exact ⟨s, rfl, hs⟩
  | initAp =>
    have hlength := hs.length
    exact ⟨_, rfl, hs.good, hs.gap, hs.low, hs.safe, by dsimp only; omega⟩

/-- The ids of processes stay different, in range, and apart from those of the idle processes, exactly
as long as no fork on several processors finds all ids above the last one taken. -/
theorem pid_iff (hcpus : lcpuCount < maxProcess) (hfuel : 16384 ≤ fuel) (es : List Event) :
    Correct (step fuel lcpuCount) (Good lcpuCount) procInit es ↔
      AllSafe (step fuel lcpuCount) (Roomy lcpuCount) procInit es := by
  refine correct_iff_allSafe (Inv lcpuCount) (fun s hs => hs.good)
    (fun s e hs he => step_spec hcpus hfuel hs e he) (fun s e s' hs he h => ?_) (inv_procInit hcpus) es
  cases e with
  | fork =>
    have hnr : ¬s.nrProcess ≥ maxProcess := fun hnr => he fun h => absurd hnr (by omega)
    obtain ⟨n, hpid⟩ := getPid_eq_one hs hfuel he
    rw [step, if_neg hnr, hpid] at h
    cases h
    intro hgood
    have hone := (hgood.2 1 (.head _)).1
    exact he fun _ => .inl (by exact_mod_cast hone)
  | exit | initAp => exact absurd trivial he

/-- Three processors, with a process that exits in between. -/
theorem pid_iff_three : Correct (step 16384 3) (Good 3) procInit [.initAp, .fork, .initAp, .fork, .exit 3] :=
  (pid_iff (by decide) le_rfl _).mpr
    ⟨trivial, fun _ => .inr (.inl (by decide)), trivial,
      fun _ => .inr (.inr ⟨4, by decide, by decide, by decide⟩), trivial, trivial⟩

/-! ### A process with the id of an idle process -/

/-- Processes that are forked and exit at once, with the ids from `pid` on. -/
def passing (pid : ℤ) : ℕ → List Event
  | 0 => []
  | k + 1 => [.fork, .exit pid] ++ passing (pid + 1) k

/-- Such processes only move the last id. -/
lemma foldlM_passing {pid : ℤ} (k : ℕ) (hnr : s.nrProcess < maxProcess) (hlast : s.lastPid + 1 = pid)
    (hsafe : pid + k ≤ s.nextSafe) (hmax : s.nextSafe ≤ maxPid) :
    (passing pid k).foldlM (step fuel lcpuCount) s = .ok { s with lastPid := s.lastPid + k } := by
  induction k generalizing s pid with
  | zero => simp [passing]
  | succ k ih =>
    have hpid : getPid fuel lcpuCount s = some (pid, s.nextSafe) := by
      rw [getPid, if_neg (by omega), if_neg (by omega), hlast]
    have hfork : step fuel lcpuCount s .fork =
        .ok ⟨pid :: s.list, s.nextSafe, pid, s.nrProcess + 1⟩ := by
      rw [step, if_neg (by omega), hpid]
    grind [step, passing, ok_bind]

/-- The ids are used up once while the last one stays taken, and then once more. -/
def wrapping : List Event :=
  [.fork, .exit 2] ++ (passing 3 8188 ++ ([.fork, .fork, .exit 2] ++ (passing 3 8188 ++ [.fork])))

/-- With two processors, a process gets the id of the idle process of the second. -/
theorem idle_pid_taken : ¬Correct (step 16384 2) (Good 2) procInit wrapping := by
  intro h
  have h1 : Correct (step 16384 2) (Good 2) ⟨[], 8192, 2, 1⟩ _ := h.of_append rfl
  have h2 := h1.of_append (foldlM_passing 8188 (by decide) rfl (by decide) le_rfl)
  have h3 : Correct (step 16384 2) (Good 2) ⟨[8191], 8191, 2, 2⟩ _ := h2.of_append rfl
  have h4 := h3.of_append (foldlM_passing 8188 (by decide) rfl (by decide) (by decide))
  rw [← append_nil [Event.fork]] at h4
  have h5 : Correct (step 16384 2) (Good 2) ⟨[1, 8191], 8191, 1, 3⟩ [] := h4.of_append rfl
  exact absurd (h5.2 1 (.head _)).1 (by decide)

end UcoreKernel.Pid
