import UcoreKernel.Lib.RingBuf
import UcoreKernel.Fs.PipeState

/-!
A pipe is a bounded first-in first-out queue, whatever the interleaving of its readers and
writers.

`PipeInv st acc ret` ties the state of a pipe to the bytes accepted so far and the bytes
returned so far: the positions count them, at most `PIPE_BUFSIZE` bytes are waiting, and these
lie in the ring. Each step of any process extends the two sequences by what it shows
(`step_inv`), and the results about runs follow by induction. The positions wrap around, and the
cells then still come in turn if `PIPE_BUFSIZE` divides the number of positions.
-/

namespace UcoreKernel.Pipe

open RingBuf Function List

variable {A : PipeArch} {st : PipeState A} {acc ret : List UInt8}

/-- The state of the pipe after the bytes `acc` have been accepted and the bytes `ret`
returned. -/
structure PipeInv (st : PipeState A) (acc ret : List UInt8) : Prop where
  rpos : st.pRpos = BitVec.ofNat A.width ret.length
  wpos : st.pWpos = BitVec.ofNat A.width acc.length
  ret_prefix : ret <+: acc
  room : acc.length ≤ ret.length + A.bufsize
  holds : Holds A.bufsize st.buf acc ret.length

/-- Only the positions and the buffer matter for the invariant. -/
lemma PipeInv.congr {st st' : PipeState A} (h : PipeInv st acc ret)
    (hr : st'.pRpos = st.pRpos) (hw : st'.pWpos = st.pWpos) (hb : st'.buf = st.buf) : PipeInv st' acc ret :=
  ⟨hr ▸ h.rpos, hw ▸ h.wpos, h.ret_prefix, h.room, hb ▸ h.holds⟩

lemma PipeArch.bufsize_pos (A : PipeArch) : 0 < A.bufsize := by
  have := A.bufsize_gt
  rw [bufsize]
  omega

lemma PipeArch.bufsize_lt (A : PipeArch) : A.bufsize < 2 ^ A.width := by
  have hpage := A.pgsize_lt
  have hwidth : 2 ^ 32 ≤ 2 ^ A.width := Nat.pow_le_pow_right (by decide) A.width_ge
  rw [bufsize]
  omega

/-- The first `n` positions do not wrap around, or wrap around where the ring does. -/
def PipeArch.InTurn (A : PipeArch) (n : ℕ) : Prop := n ≤ 2 ^ A.width ∨ A.bufsize ∣ 2 ^ A.width

variable {n : ℕ}

lemma PipeArch.InTurn.mono {m : ℕ} (h : A.InTurn n) (hmn : m ≤ n) : A.InTurn m :=
  h.imp_left hmn.trans

/-- The cell of a position. -/
lemma PipeArch.InTurn.cell {i : ℕ} (h : A.InTurn n) (hi : i < n) :
    (BitVec.ofNat A.width i).toNat % A.bufsize = i % A.bufsize := by
  rw [BitVec.toNat_ofNat]
  obtain hle | hdvd := h
  · rw [Nat.mod_eq_of_lt (hi.trans_le hle)]
  · exact Nat.mod_mod_of_dvd i hdvd

/-- A position below `2 ^ 31`. -/
lemma PipeArch.toNat_ofNat (A : PipeArch) (hn : n < 2 ^ 31) :
    (BitVec.ofNat A.width n).toNat = n ∧ A.InTurn n := by
  have hwidth : 2 ^ 32 ≤ 2 ^ A.width := Nat.pow_le_pow_right (by decide) A.width_ge
  rw [BitVec.toNat_ofNat]
  exact ⟨Nat.mod_eq_of_lt (by omega), .inl (by omega)⟩

namespace PipeInv

variable (h : PipeInv st acc ret)
include h

/-- The difference of the positions is the number of waiting bytes. -/
lemma toNat_sub : (st.pWpos - st.pRpos).toNat = acc.length - ret.length := by
  have hroom := h.room
  have hsize := A.bufsize_lt
  rw [h.rpos, h.wpos, ← Nat.add_sub_cancel' h.ret_prefix.length_le, BitVec.ofNat_add,
    BitVec.add_comm, BitVec.add_sub_cancel, BitVec.toNat_ofNat, Nat.mod_eq_of_lt (by omega)]
  omega

/-- The pipe is empty exactly when every accepted byte has been returned. -/
lemma isEmpty_iff : isEmpty st = true ↔ ret.length = acc.length := by
  have hpre := h.ret_prefix.length_le
  have hsub := h.toNat_sub
  rw [isEmpty, beq_iff_eq]
  constructor
  · intro hEq
    rw [hEq, BitVec.sub_self] at hsub
    rw [BitVec.toNat_zero] at hsub
    omega
  · intro hEq
    rw [h.rpos, h.wpos, hEq]

/-- The test for a full pipe is exact. -/
lemma isFull_iff : isFull st = true ↔ acc.length = ret.length + A.bufsize := by
  have hpre := h.ret_prefix.length_le
  have hroom := h.room
  rw [isFull, decide_eq_true_eq, h.toNat_sub]
  omega

/-- The bytes that wait are the accepted bytes behind the returned ones. -/
lemma eq_append_drop : acc = ret ++ acc.drop ret.length := by
  obtain ⟨rest, hrest⟩ := h.ret_prefix
  rw [← hrest]
  simp

end PipeInv

/-! ### The copying loops -/

/-- What the writer's loop leaves over is a rest of what it was given. -/
lemma writeLoop_suffix (bs : List UInt8) (st : PipeState A) : (writeLoop bs st).2 <:+ bs := by
  induction bs generalizing st with
  | nil => exact suffix_rfl
  | cons b bs ih =>
    rw [writeLoop]
    split_ifs with hfull
    · exact suffix_rfl
    · exact (ih _).trans (suffix_cons b bs)

/-- The bytes the writer's loop stores. -/
def stored (bs : List UInt8) (st : PipeState A) : List UInt8 :=
  bs.take (bs.length - (writeLoop bs st).2.length)

lemma stored_append (bs : List UInt8) (st : PipeState A) : stored bs st ++ (writeLoop bs st).2 = bs := by
  obtain ⟨pre, hpre⟩ := writeLoop_suffix bs st
  grind [stored, take_left']

lemma stored_cons {b : UInt8} {bs : List UInt8} (hfull : ¬isFull st = true) :
    stored (b :: bs) st = b :: stored bs (storeByte st b) := by
  grind [stored_append, writeLoop, append_cancel_right]

/-- The loop of the writer stores bytes at the end until it is done or the pipe is full. -/
lemma writeLoop_spec (bs : List UInt8) (h : PipeInv st acc ret) (hlen : A.InTurn (acc ++ stored bs st).length) :
    PipeInv (writeLoop bs st).1 (acc ++ stored bs st) ret := by
  induction bs generalizing st acc with
  | nil => simpa [writeLoop, stored] using h
  | cons b bs ih =>
    by_cases hfull : isFull st = true
    · have hnone : stored (b :: bs) st = [] := by
        rw [stored, writeLoop, if_pos hfull]
        simp
      grind [writeLoop]
    · rw [stored_cons hfull] at hlen ⊢
      rw [writeLoop, if_neg hfull]
      have hroom := h.room
      have hnot : ¬acc.length = ret.length + A.bufsize := fun hEq => hfull (h.isFull_iff.mpr hEq)
      have hcell := hlen.cell (i := acc.length) (by simp)
      have hpush : PipeInv (storeByte st b) (acc ++ [b]) ret := by
        refine ⟨h.rpos, ?_, h.ret_prefix.trans (prefix_append _ _), ?_, ?_⟩
        · rw [length_append, length_singleton, BitVec.ofNat_add, ← h.wpos]
          rfl
        · grind
        · show Holds A.bufsize (update st.buf (st.pWpos.toNat % A.bufsize) b) _ _
          rw [h.wpos, hcell]
          exact h.holds.push (by omega) b
      grind

/-- The loop of the reader returns the oldest waiting bytes, as many as fit. -/
lemma readLoop_spec (n : ℕ)
    (h : PipeInv st acc ret) (hlen : A.InTurn acc.length) : (readLoop n st).2 = (acc.drop ret.length).take n ∧
      PipeInv (readLoop n st).1 acc (ret ++ (readLoop n st).2) := by
  induction n generalizing st ret with
  | zero =>
    rw [readLoop]
    exact ⟨by simp, by simpa using h⟩
  | succ n ih =>
    have hpre := h.ret_prefix.length_le
    rw [readLoop]
    by_cases hempty : isEmpty st = true
    · have hEq := h.isEmpty_iff.mp hempty
      grind
    · rw [if_neg hempty]
      have hne : ret.length ≠ acc.length := fun hEq => hempty (h.isEmpty_iff.mpr hEq)
      have hlt : ret.length < acc.length := by omega
      have hfront := h.holds.front hlt
      have hcell : acc.drop ret.length
          = st.buf (ret.length % A.bufsize) :: acc.drop (ret.length + 1) := by
        grind [drop_eq_getElem_cons]
      have hnext : PipeInv { st with pRpos := st.pRpos + 1 } acc
          (ret ++ [st.buf (ret.length % A.bufsize)]) := by
        refine ⟨?_, h.wpos, ?_, ?_, ?_⟩
        · rw [length_append, length_singleton, BitVec.ofNat_add, ← h.rpos]
          rfl
        · refine ⟨acc.drop (ret.length + 1), ?_⟩
          rw [append_assoc, singleton_append, ← hcell]
          exact h.eq_append_drop.symm
        · have hroom := h.room
          grind
        · rw [length_append, length_singleton]
          exact h.holds.advance (Nat.le_succ _)
      obtain ⟨hbytes, hinv⟩ := ih hnext
      rw [length_append, length_singleton] at hbytes
      have hslot : st.pRpos.toNat % A.bufsize = ret.length % A.bufsize := by rw [h.rpos, hlen.cell hlt]
      simp only [hslot]
      constructor
      · rw [hbytes, hcell, take_succ_cons]
      · rw [append_cons]
        exact hinv

/-! ### One step -/

/-- The bytes one event adds to the accepted ones. -/
def Event.accepts : Event → List UInt8
  | .accepted _ bytes => bytes
  | _ => []

/-- The bytes one event adds to the returned ones. -/
def Event.returns : Event → List UInt8
  | .returned _ _ bytes => bytes
  | _ => []

lemma acceptedBytes_cons (e : Event) (es : List Event) :
    acceptedBytes (e :: es) = e.accepts ++ acceptedBytes es := by
  cases e <;> rfl

lemma returnedBytes_cons (e : Event) (es : List Event) :
    returnedBytes (e :: es) = e.returns ++ returnedBytes es := by
  cases e <;> rfl

variable {c c' : Config A} {e : Event}

/-- A step that leaves the positions and the buffer alone and shows no bytes. -/
lemma inv_of_quiet (h : PipeInv c.st acc ret) (hr : c'.st.pRpos = c.st.pRpos) (hw : c'.st.pWpos = c.st.pWpos)
    (hb : c'.st.buf = c.st.buf) (ha : e.accepts = []) (hret : e.returns = []) :
    PipeInv c'.st (acc ++ e.accepts) (ret ++ e.returns) := by
  rw [ha, hret, append_nil, append_nil]
  exact h.congr hr hw hb

/-- Waking processes changes neither positions nor buffer. -/
lemma wakeupReader_inv (h : PipeInv c.st acc ret) :
    PipeInv (wakeupReader c).st acc ret := h.congr rfl rfl rfl

lemma wakeupWriter_inv (h : PipeInv c.st acc ret) :
    PipeInv (wakeupWriter c).st acc ret := h.congr rfl rfl rfl

/-- A read section returns the oldest waiting bytes. -/
lemma readSection_inv (p : ProcId) (n : ℕ)
    (h : PipeInv c.st acc ret) (hlen : A.InTurn acc.length) : (readSection c p n).2.accepts = [] ∧
      PipeInv (readSection c p n).1.st acc (ret ++ (readSection c p n).2.returns) := by
  rw [readSection]
  by_cases hempty : isEmpty c.st = true
  · rw [if_pos hempty]
    split_ifs with hclosed
    · exact ⟨rfl, by simpa [Event.returns, Config.setProc] using h⟩
    · exact ⟨rfl, by simpa [Event.returns, Config.setProc] using h⟩
  · rw [if_neg hempty]
    refine ⟨rfl, ?_⟩
    have hinv := (readLoop_spec n h hlen).2
    show PipeInv ((if (readLoop n c.st).2 = [] then _ else _ : Config A).setProc p none).st acc
      (ret ++ (readLoop n c.st).2)
    split_ifs
    · exact hinv
    · exact wakeupWriter_inv hinv

/-- A write section appends the bytes it stores. -/
lemma writeSection_inv (p : ProcId) (todo : List UInt8)
    (h : PipeInv c.st acc ret) (hlen : A.InTurn (acc ++ (writeSection c p todo).2.accepts).length) :
    (writeSection c p todo).2.returns = [] ∧
      PipeInv (writeSection c p todo).1.st (acc ++ (writeSection c p todo).2.accepts) ret := by
  rw [writeSection] at hlen ⊢
  by_cases hclosed : c.st.isclosed = true
  · rw [if_pos hclosed]
    exact ⟨rfl, by simpa [Event.accepts, Config.setProc] using h⟩
  · rw [if_neg hclosed] at hlen ⊢
    by_cases hrest : (writeLoop todo c.st).2 = []
    · rw [if_pos hrest] at hlen ⊢
      refine ⟨rfl, ?_⟩
      have hinv := writeLoop_spec todo h hlen
      split_ifs
      · exact hinv
      · exact wakeupReader_inv hinv
    · rw [if_neg hrest] at hlen ⊢
      refine ⟨rfl, ?_⟩
      have hinv := writeLoop_spec todo h hlen
      exact wakeupReader_inv hinv

variable {a : Action}

/-- What a step can be: a section of a reader, a section of a writer, or a step that moves no
bytes. -/
lemma step_cases (h : step c a = some (c', e)) :
    (∃ p n, c.procs p = some ⟨.read n, .lock⟩ ∧ (c', e) = readSection c p n) ∨
      (∃ p todo, c.procs p = some ⟨.write todo, .lock⟩ ∧ (c', e) = writeSection c p todo) ∨
      (c'.st.pRpos = c.st.pRpos ∧ c'.st.pWpos = c.st.pWpos ∧ c'.st.buf = c.st.buf ∧
        (c.st.isclosed = true → c'.st.isclosed = true) ∧ (e = .silent ∨ ∃ p, e = .interrupted p)) := by
  cases a <;> rw [step] at h
  case readCall p _ | writeCall p _ | kill p =>
    split at h
    · cases h
      exact .inr (.inr ⟨rfl, rfl, rfl, id, .inl rfl⟩)
    · cases h
  case enter p =>
    split at h
    · grind
    · grind
    · cases h
  case prepare p =>
    split at h
    · next call hp =>
        cases h
        cases call <;> exact .inr (.inr ⟨rfl, rfl, rfl, id, .inl rfl⟩)
    · cases h
  case resume p =>
    split at h
    · next call flags hp =>
        simp only [leaveQueue] at h
        split_ifs at h with hflags
        · cases h
          cases call <;> exact .inr (.inr ⟨rfl, rfl, rfl, id, .inl rfl⟩)
        · cases h
          cases call <;> exact .inr (.inr ⟨rfl, rfl, rfl, id, .inr ⟨p, rfl⟩⟩)
    · cases h
  case close =>
    cases h
    exact .inr (.inr ⟨rfl, rfl, rfl, fun _ => rfl, .inl rfl⟩)

/-- Every step extends the accepted and the returned bytes by what it shows. -/
lemma step_inv (hinv : PipeInv c.st acc ret) (h : step c a = some (c', e))
    (hlen : A.InTurn (acc ++ e.accepts).length) : PipeInv c'.st (acc ++ e.accepts) (ret ++ e.returns) := by
  have hacc : A.InTurn acc.length := hlen.mono (by simp)
  obtain ⟨p, n, -, hsec⟩ | ⟨p, todo, -, hsec⟩ | ⟨hr, hw, hb, -, he⟩ := step_cases h
  · obtain ⟨ha, hpost⟩ := readSection_inv p n hinv hacc
    grind
  · have hpost := writeSection_inv p todo hinv (by rw [← hsec]; exact hlen)
    grind
  · obtain rfl | ⟨p, rfl⟩ := he
    · exact inv_of_quiet hinv hr hw hb rfl rfl
    · exact inv_of_quiet hinv hr hw hb rfl rfl

variable {as : List Action} {es : List Event}

/-- A whole interleaving. -/
lemma run_inv (hinv : PipeInv c.st acc ret) (h : run c as = some (c', es))
    (hlen : A.InTurn (acc ++ acceptedBytes es).length) :
    PipeInv c'.st (acc ++ acceptedBytes es) (ret ++ returnedBytes es) := by
  induction as generalizing c acc ret es with
  | nil =>
    cases h
    simpa [acceptedBytes, returnedBytes] using hinv
  | cons a as ih =>
    obtain ⟨⟨c1, e⟩, hstep, h⟩ := Option.bind_eq_some_iff.mp h
    obtain ⟨⟨c2, es2⟩, hrun, hret⟩ := Option.bind_eq_some_iff.mp h
    cases hret
    rw [acceptedBytes_cons, returnedBytes_cons, ← append_assoc, ← append_assoc] at *
    exact ih (step_inv hinv hstep (hlen.mono (by simp))) hrun hlen

/-- A fresh pipe. -/
lemma pipeStateCreate_inv (buf : ℕ → UInt8) : PipeInv (A := A) (pipeStateCreate buf) [] [] :=
  ⟨rfl, rfl, prefix_rfl, by simp, holds_nil _ _ _⟩

/-- The cells of the waiting bytes survive every step. -/
lemma step_keeps (hinv : PipeInv c.st acc ret) (h : step c a = some (c', e))
    (hlen : A.InTurn (acc ++ e.accepts).length) {i : ℕ} (hi : ret.length ≤ i)
    (hi' : i < acc.length) : c'.st.buf (i % A.bufsize) = c.st.buf (i % A.bufsize) := by
  have hpost := step_inv hinv h hlen
  -- a reader changes no cell; for a writer the accepted bytes stay in their cells
  obtain ⟨p, n, -, hsec⟩ | ⟨p, todo, -, hsec⟩ | ⟨-, -, hb, -, -⟩ := step_cases h
  · have hbuf : ∀ (m : ℕ) (st : PipeState A), (readLoop m st).1.buf = st.buf := by
      intro m
      induction m with
      | zero => exact fun st => rfl
      | succ m ih => grind [readLoop]
    have hc' : c' = (readSection c p n).1 := congrArg Prod.fst hsec
    simp only [hc', readSection]
    split_ifs
    · rfl
    · rfl
    · exact congrFun (hbuf n c.st) _
    · exact congrFun (hbuf n c.st) _
  · have hret : e.returns = [] := by
      have := (writeSection_inv p todo hinv (by rw [← hsec]; exact hlen)).1
      rwa [← hsec] at this
    rw [hret, append_nil] at hpost
    have hnew := hpost.holds i hi (by rw [length_append]; omega)
    rw [getElem?_append_left hi', hinv.holds i hi hi'] at hnew
    exact (Option.some.inj hnew).symm
  · rw [hb]

variable {p : ProcId}

/-- A read returns the oldest waiting bytes, as many as it asks for; it returns none, though it
asks for some, only when the pipe is closed and every accepted byte has been returned. -/
lemma step_returned {bytes acc ret : List UInt8} (hinv : PipeInv c.st acc ret) (hlen : A.InTurn acc.length)
    (h : step c a = some (c', .returned p n bytes)) : bytes = (acc.drop ret.length).take n ∧
      (bytes = [] → 0 < n → c.st.isclosed = true ∧ ret = acc) := by
  have hall : ret.length = acc.length → ret = acc := by
    intro hEq
    exact hinv.ret_prefix.eq_of_length hEq
  obtain ⟨q, m, -, hsec⟩ | ⟨q, todo, -, hsec⟩ | ⟨-, -, -, -, he⟩ := step_cases h
  · rw [readSection] at hsec
    by_cases hempty : isEmpty c.st = true
    · have hEq := hinv.isEmpty_iff.mp hempty
      rw [if_pos hempty] at hsec
      split_ifs at hsec with hclosed
      · grind
      · cases hsec
    · rw [if_neg hempty] at hsec
      have hev := congrArg Prod.snd hsec
      cases hev
      have hbytes := (readLoop_spec n hinv hlen).1
      refine ⟨hbytes, fun _ _ => ?_⟩
      -- the pipe is not empty, so something was there to return
      have hpre := hinv.ret_prefix.length_le
      have hne : ret.length ≠ acc.length := fun hEq => hempty (hinv.isEmpty_iff.mpr hEq)
      grind [length_take]
  · grind [writeSection]
  · obtain he | ⟨q, he⟩ := he <;> cases he

/-- Once the pipe is closed nothing is accepted any more. -/
lemma step_closed (hclosed : c.st.isclosed = true) (h : step c a = some (c', e)) : e.accepts = [] := by
  obtain ⟨p, n, -, hsec⟩ | ⟨p, todo, -, hsec⟩ | ⟨-, -, -, -, he⟩ := step_cases h
  · have hev : e = (readSection c p n).2 := congrArg Prod.snd hsec
    rw [hev, readSection]
    split_ifs <;> rfl
  · have hev : e = (writeSection c p todo).2 := congrArg Prod.snd hsec
    rw [hev, writeSection, if_pos hclosed]
    rfl
  · obtain rfl | ⟨p, rfl⟩ := he <;> rfl

/-- On a closed pipe a read never waits. -/
lemma closed_read_returns
    (hinv : PipeInv c.st acc ret) (hlen : A.InTurn acc.length) (hclosed : c.st.isclosed = true)
    (hp : c.procs p = some ⟨.read n, .lock⟩) :
    ∃ c', step c (.enter p) = some (c', .returned p n ((acc.drop ret.length).take n)) := by
  have hstep : step c (.enter p) = some (readSection c p n) := by
    rw [step, hp]
  rw [hstep, readSection]
  by_cases hempty : isEmpty c.st = true
  · rw [if_pos hempty, if_pos hclosed, hinv.isEmpty_iff.mp hempty, drop_length, take_nil]
    exact ⟨_, rfl⟩
  · rw [if_neg hempty, ← (readLoop_spec n hinv hlen).1]
    exact ⟨_, rfl⟩

/-- Every process that is awake after a wait was woken by the pipe. -/
def WokenByPipe (procs : Procs) : Prop :=
  ∀ p x flags, procs p = some x → x.pc = .woken flags → flags = wtPipe

variable {procs : Procs}

lemma WokenByPipe.update (h : WokenByPipe procs) (p : ProcId)
    {x : Option PipeProc} (hx : ∀ y flags, x = some y → y.pc ≠ .woken flags) :
    WokenByPipe (update procs p x) := by
  intro q y flags hq hy
  by_cases hqp : q = p
  · grind
  · rw [update_of_ne hqp] at hq
    exact h q y flags hq hy

lemma WokenByPipe.wakeupQueue (h : WokenByPipe procs) (queue : List ProcId) :
    WokenByPipe (wakeupQueue procs queue) := by
  intro q y flags hq hy
  rw [Pipe.wakeupQueue] at hq
  split_ifs at hq with hmem
  · obtain ⟨z, -, rfl⟩ := Option.map_eq_some_iff.mp hq
    exact (Pc.woken.inj hy).symm
  · exact h q y flags hq hy

/-- Only a kill ends a wait from outside the pipe. -/
lemma step_woken (hw : WokenByPipe c.procs) (h : step c a = some (c', e)) (ha : ∀ p, a ≠ .kill p) :
    WokenByPipe c'.procs ∧ ∀ p, e ≠ .interrupted p := by
  cases a <;> rw [step] at h
  case readCall p _ | writeCall p _ | prepare p =>
    split at h <;> cases h
    exact ⟨hw.update p (by rintro _ _ ⟨⟩ ⟨⟩), nofun⟩
  case enter p =>
    split at h
    case h_3 => cases h
    all_goals
      simp only [readSection, writeSection] at h
      split_ifs at h <;> cases h
      all_goals first
        | exact ⟨hw.update p (by rintro _ _ ⟨⟩ ⟨⟩), nofun⟩
        | exact ⟨(hw.wakeupQueue _).update p (by rintro _ _ ⟨⟩ ⟨⟩), nofun⟩
  case kill p => exact absurd rfl (ha p)
  case resume p =>
    split at h
    · next call flags hp =>
        simp only [leaveQueue, if_pos (hw p _ flags hp rfl)] at h
        cases h
        exact ⟨hw.update p (by rintro _ _ ⟨⟩ ⟨⟩), nofun⟩
    · cases h
  case close =>
    cases h
    exact ⟨(hw.wakeupQueue _).wakeupQueue _, nofun⟩

/-- Without a kill no call is interrupted. -/
lemma run_woken (hw : WokenByPipe c.procs) (h : run c as = some (c', es)) (has : ∀ p, .kill p ∉ as) :
    ∀ p, .interrupted p ∉ es := by
  induction as generalizing c es with
  | nil =>
    cases h
    exact nofun
  | cons a as ih =>
    obtain ⟨⟨c1, e⟩, hstep, h⟩ := Option.bind_eq_some_iff.mp h
    obtain ⟨⟨c2, es2⟩, hrun, -⟩ := Option.bind_eq_some_iff.mp h
    grind [step_woken]

/-- **A pipe is a bounded first-in first-out queue.**  After every interleaving `as` of the calls
of any number of processes on a fresh pipe, as long as fewer than `2 ^ 31` bytes have been
accepted: the bytes returned by the reads are a prefix of the bytes accepted from the writes;
the number of bytes not returned yet lies between `0` and `PIPE_BUFSIZE`, and they lie in the
ring; the next step, whatever it is, leaves the cell of every such byte alone, a read returns
the next of them, and a read that asks for some bytes and returns none finds the pipe closed
and every accepted byte returned; a closed pipe accepts nothing more, and a read on it returns
at once the bytes that are still there. A call that a kill interrupts shows as such, and there
is none without a kill. -/
theorem pipe_is_bounded_fifo (buf : ℕ → UInt8) (as : List Action) (c : Config A)
    (es : List Event) (hrun : run ⟨pipeStateCreate buf, fun _ => none⟩ as = some (c, es))
    (hlen : (acceptedBytes es).length < 2 ^ 31) : returnedBytes es <+: acceptedBytes es ∧
    c.st.pRpos.toNat = (returnedBytes es).length ∧
    c.st.pWpos.toNat = (acceptedBytes es).length ∧
    (0 : ℤ) ≤ c.st.pWpos.toNat - c.st.pRpos.toNat ∧
    (c.st.pWpos.toNat - c.st.pRpos.toNat : ℤ) ≤ A.bufsize ∧
    Holds A.bufsize c.st.buf (acceptedBytes es) (returnedBytes es).length ∧
    (∀ a c' e, step c a = some (c', e) → (acceptedBytes es ++ e.accepts).length < 2 ^ 31 →
      (∀ i, (returnedBytes es).length ≤ i → i < (acceptedBytes es).length →
        c'.st.buf (i % A.bufsize) = c.st.buf (i % A.bufsize)) ∧
      (∀ p n bytes, e = .returned p n bytes →
        bytes = ((acceptedBytes es).drop (returnedBytes es).length).take n ∧
        (bytes = [] → 0 < n → c.st.isclosed = true ∧ returnedBytes es = acceptedBytes es))) ∧
    (c.st.isclosed = true →
      (∀ a c' e, step c a = some (c', e) → e.accepts = []) ∧
      ∀ p n, c.procs p = some ⟨.read n, .lock⟩ → ∃ c', step c (.enter p) =
        some (c', .returned p n (((acceptedBytes es).drop (returnedBytes es).length).take n))) ∧
    ((∀ p, .kill p ∉ as) → ∀ p, .interrupted p ∉ es) := by
  have hinv : PipeInv c.st (acceptedBytes es) (returnedBytes es) :=
    run_inv (pipeStateCreate_inv buf) hrun (A.toNat_ofNat hlen).2
  have hpre := hinv.ret_prefix.length_le
  have hroom := hinv.room
  have hturn := (A.toNat_ofNat hlen).2
  have hrpos : c.st.pRpos.toNat = (returnedBytes es).length :=
    hinv.rpos ▸ (A.toNat_ofNat (hpre.trans_lt hlen)).1
  have hwpos : c.st.pWpos.toNat = (acceptedBytes es).length := hinv.wpos ▸ (A.toNat_ofNat hlen).1
  refine ⟨hinv.ret_prefix, hrpos, hwpos, ?_, ?_, hinv.holds, ?_, ?_, run_woken (by rintro p x flags ⟨⟩) hrun⟩
  · omega
  · omega
  · intro a c' e hstep hlen'
    refine ⟨fun i hi hi' => step_keeps hinv hstep (A.toNat_ofNat hlen').2 hi hi', ?_⟩
    rintro p n bytes rfl
    exact step_returned hinv hturn hstep
  · intro hclosed
    exact ⟨fun a c' e => step_closed hclosed, fun p n => closed_read_returns hinv hturn hclosed⟩

/-- The constants of i386. -/
def i386 : PipeArch := ⟨32, 4096, 48, by decide, by decide, by decide⟩

/-- Two writers and two readers; the second reader comes after the pipe was closed. -/
theorem pipe_is_bounded_fifo_twoReaders : ∃ (c : Config i386) (es : List Event),
      run ⟨pipeStateCreate fun _ => 0, fun _ => none⟩
        [.readCall 1 2, .enter 1, .prepare 1, .writeCall 2 [7, 8], .writeCall 3 [9], .enter 3,
          .enter 2, .resume 1, .enter 1, .close, .readCall 4 5, .enter 4] = some (c, es) ∧
      acceptedBytes es = [9, 7, 8] ∧ returnedBytes es <+: acceptedBytes es := by
  refine ⟨_, _, rfl, rfl, ?_⟩
  exact (pipe_is_bounded_fifo (A := i386) (fun _ => 0)
    [.readCall 1 2, .enter 1, .prepare 1, .writeCall 2 [7, 8], .writeCall 3 [9], .enter 3,
      .enter 2, .resume 1, .enter 1, .close, .readCall 4 5, .enter 4] _ _ rfl (by decide)).1

end UcoreKernel.Pipe
