import UcoreKernel.Fs.Pipe

/-!
The positions of a pipe wrap around.

`p_rpos` and `p_wpos` are never reset, and a cell is the position, as a word, modulo `PIPE_BUFSIZE`.
The positions wrap around at `2 ^ w`, where the cells go back to the first one, whichever they have come
to. If `PIPE_BUFSIZE` does not divide `2 ^ w`, a byte that still waits is then overwritten.
-/

namespace UcoreKernel.Pipe

open RingBuf Function List

variable {A : PipeArch} {st : PipeState A} {acc ret : List UInt8} {n : ℕ}

/-- A pipe with no process. -/
def freshPipe (A : PipeArch) (buf : ℕ → UInt8) : Config A := ⟨pipeStateCreate buf, fun _ => none⟩

/-- The byte returned at a position is the byte accepted at that position, and the tests for an empty and
for a full pipe are exact. -/
structure Exact (c : Config A) (es : List Event) : Prop where
  bytes : ∀ p < (returnedBytes es).length, (returnedBytes es)[p]? = (acceptedBytes es)[p]?
  empty : isEmpty c.st = true ↔ (returnedBytes es).length = (acceptedBytes es).length
  full : isFull c.st = true ↔ (acceptedBytes es).length = (returnedBytes es).length + A.bufsize

lemma PipeInv.exact {c : Config A} {es : List Event}
    (h : PipeInv c.st (acceptedBytes es) (returnedBytes es)) : Exact c es where
  bytes := fun p hp => by
    obtain ⟨rest, hrest⟩ := h.ret_prefix
    rw [← hrest, getElem?_append_left hp]
  empty := h.isEmpty_iff
  full := h.isFull_iff

/-! ### One process, one byte at a time -/

lemma run_append (c : Config A) (as bs : List Action) :
    run c (as ++ bs) = (run c as).bind fun r => (run r.1 bs).map fun r' => (r'.1, r.2 ++ r'.2) := by
  induction as generalizing c with
  | nil => simp [run]
  | cons a as ih =>
    simp only [cons_append, run, ih]
    cases step c a with
    | none => rfl
    | some r =>
      cases h : run r.1 as with
      | none => simp [h]
      | some r' => cases h' : run r'.1 bs <;> simp [h, h']

lemma acceptedBytes_append (es es' : List Event) :
    acceptedBytes (es ++ es') = acceptedBytes es ++ acceptedBytes es' := by
  induction es with
  | nil => rfl
  | cons e es ih => rw [cons_append, acceptedBytes_cons, ih, acceptedBytes_cons, append_assoc]

lemma returnedBytes_append (es es' : List Event) :
    returnedBytes (es ++ es') = returnedBytes es ++ returnedBytes es' := by
  induction es with
  | nil => rfl
  | cons e es ih => rw [cons_append, returnedBytes_cons, ih, returnedBytes_cons, append_assoc]

/-- A run comes to a state in which the pipe is open and process 0 is in no call. -/
def Reached (st : PipeState A) (acc ret : List UInt8) : Prop :=
  st.isclosed = false ∧ ∃ as c es, run (freshPipe A fun _ => 0) as = some (c, es) ∧ c.st = st ∧
    c.procs 0 = none ∧ acceptedBytes es = acc ∧ returnedBytes es = ret

section

variable (h : Reached st acc ret)
include h

lemma Reached.inv (hturn : A.InTurn acc.length) : PipeInv st acc ret := by
  obtain ⟨-, as, c, es, hrun, rfl, -, rfl, rfl⟩ := h
  exact run_inv (pipeStateCreate_inv _) hrun hturn

/-- Two more steps of process 0. -/
lemma Reached.steps (call : Action) (e : Event) (st' : PipeState A)
    (hopen : st'.isclosed = false) (hsteps : ∀ c, c.st = st → c.procs 0 = none →
      ∃ c', run c [call, .enter 0] = some (c', [.silent, e]) ∧ c'.st = st' ∧ c'.procs 0 = none) :
    Reached st' (acc ++ e.accepts) (ret ++ e.returns) := by
  obtain ⟨-, as, c, es, hrun, hst, hidle, rfl, rfl⟩ := h
  obtain ⟨c', hrun', hst', hidle'⟩ := hsteps c hst hidle
  refine ⟨hopen, as ++ [call, .enter 0], c', es ++ [.silent, e], ?_, hst', hidle', ?_, ?_⟩
  · rw [run_append, hrun, Option.bind_some, hrun']
    rfl
  · rw [acceptedBytes_append, acceptedBytes_cons, acceptedBytes_cons]
    simp [acceptedBytes, Event.accepts]
  · rw [returnedBytes_append, returnedBytes_cons, returnedBytes_cons]
    simp [returnedBytes, Event.returns]

/-- A byte is written if there is room for it. -/
lemma Reached.push (hturn : A.InTurn acc.length) (hroom : acc.length < ret.length + A.bufsize) (b : UInt8) :
    Reached { storeByte st b with readerQueue := [] } (acc ++ [b]) ret := by
  have hfull : ¬isFull st = true := fun hfull => hroom.ne ((h.inv hturn).isFull_iff.mp hfull)
  have hsteps := h.steps (.writeCall 0 [b]) (.accepted 0 [b]) { storeByte st b with readerQueue := [] } h.1 ?_
  · simpa [Event.accepts, Event.returns] using hsteps
  · rintro c rfl hidle
    have hclosed : c.st.isclosed = false := h.1
    refine ⟨(wakeupReader ⟨storeByte c.st b, update c.procs 0 (some ⟨.write [b], .lock⟩)⟩).setProc 0 none, ?_,
      rfl, by simp [Config.setProc]⟩
    simp [run, step, hidle, Config.setProc, writeSection, hclosed, writeLoop, hfull]

/-- A byte is read. -/
lemma Reached.take (hempty : ¬isEmpty st = true) :
    Reached { st with pRpos := st.pRpos + 1, writerQueue := [] } acc
      (ret ++ [st.buf (st.pRpos.toNat % A.bufsize)]) := by
  have hsteps := h.steps (.readCall 0 1) (.returned 0 1 [st.buf (st.pRpos.toNat % A.bufsize)])
    { st with pRpos := st.pRpos + 1, writerQueue := [] } h.1 ?_
  · simpa [Event.accepts, Event.returns] using hsteps
  · rintro c rfl hidle
    refine ⟨(wakeupWriter ⟨{ c.st with pRpos := c.st.pRpos + 1 },
      update c.procs 0 (some ⟨.read 1, .lock⟩)⟩).setProc 0 none, ?_, rfl, by simp [Config.setProc]⟩
    simp [run, step, hidle, Config.setProc, readSection, readLoop, hempty]

end

/-- Up to `2 ^ w` bytes can be written and read one by one. -/
lemma exists_reached (hn : n ≤ 2 ^ A.width) :
    ∃ st : PipeState A, Reached st (replicate n 0) (replicate n 0) := by
  induction n with
  | zero => exact ⟨pipeStateCreate fun _ => 0, rfl, [], _, [], rfl, rfl, rfl, rfl, rfl⟩
  | succ n ih =>
    obtain ⟨st, h⟩ := ih (by omega)
    have hturn : A.InTurn (replicate (n + 1) (0 : UInt8)).length := .inl (by rwa [length_replicate])
    have hstore := h.push (hturn.mono (by simp)) (Nat.lt_add_of_pos_right A.bufsize_pos) 0
    rw [← replicate_succ'] at hstore
    have htake := hstore.take fun hempty => by simpa using (hstore.inv hturn).isEmpty_iff.mp hempty
    -- all the bytes are the same
    have hEq := IsPrefix.eq_of_length (PipeInv.ret_prefix (htake.inv hturn)) (by simp)
    exact ⟨_, hEq ▸ htake⟩

/-- Bytes are written until the positions wrap around. -/
lemma exists_reached_write {m : ℕ} (hn : n + m ≤ 2 ^ A.width) (hm : m ≤ A.bufsize) :
    ∃ st : PipeState A, Reached st (replicate (n + m) 0) (replicate n 0) := by
  induction m with
  | zero => exact exists_reached hn
  | succ m ih =>
    obtain ⟨st, h⟩ := ih (by omega) (by omega)
    have hstore := h.push (.inl (by rw [length_replicate]; omega)) (by simp; omega) 0
    rw [← replicate_succ'] at hstore
    exact ⟨_, hstore⟩

/-- The last position that has the first cell before the positions wrap around. -/
def lastTurn (A : PipeArch) : ℕ := 2 ^ A.width - 2 ^ A.width % A.bufsize

/-- A byte `0` is accepted at a position that has the first cell, and before it is read the positions have
wrapped around and a byte `1` is in its cell. -/
lemma exists_overwritten (hdvd : ¬A.bufsize ∣ 2 ^ A.width) : ∃ as c es,
    run (freshPipe A fun _ => 0) as = some (c, es) ∧ (returnedBytes es)[lastTurn A]? = some 1 ∧
      (acceptedBytes es)[lastTurn A]? = some 0 := by
  have hlt : 2 ^ A.width % A.bufsize < A.bufsize := Nat.mod_lt _ A.bufsize_pos
  have hle : 2 ^ A.width % A.bufsize ≤ 2 ^ A.width := Nat.mod_le _ _
  have hsum : lastTurn A + 2 ^ A.width % A.bufsize = 2 ^ A.width := by
    rw [lastTurn]
    omega
  obtain ⟨st, h⟩ := exists_reached_write hsum.le hlt.le
  have hturn : A.InTurn (replicate (lastTurn A + 2 ^ A.width % A.bufsize) (0 : UInt8)).length :=
    .inl (by rw [length_replicate]; omega)
  have hinv := h.inv hturn
  have hstore := h.push hturn (by simp; omega) 1
  have hwpos : st.pWpos = 0 := by
    rw [hinv.wpos, length_replicate, hsum]
    exact BitVec.eq_of_toNat_eq ((Nat.mod_self _).trans BitVec.toNat_zero.symm)
  have hrpos : st.pRpos.toNat = lastTurn A := by
    have hlow : lastTurn A < 2 ^ A.width := by omega
    rw [hinv.rpos, length_replicate, BitVec.toNat_ofNat, Nat.mod_eq_of_lt hlow]
  have hcell : lastTurn A % A.bufsize = 0 := Nat.mod_eq_zero_of_dvd (Nat.dvd_sub_mod _)
  have htake := hstore.take fun hempty => by
    have hEq : st.pRpos = 1#A.width := by simpa [isEmpty, storeByte, hwpos] using hempty
    have hone : lastTurn A = 1 := by
      rw [← hrpos, hEq, BitVec.toNat_one (by have := A.width_ge; omega)]
    have hsize : 128 < A.bufsize := A.bufsize_gt
    rw [hone, Nat.mod_eq_of_lt (by omega)] at hcell
    omega
  obtain ⟨-, as, c, es, hrun, -, -, hacc, hret⟩ := htake
  refine ⟨as, c, es, hrun, ?_, ?_⟩
  · rw [hret]
    simp [storeByte, hwpos, hrpos, hcell]
  · rw [hacc, getElem?_append_left (by rw [length_replicate]; omega), getElem?_replicate, if_pos (by omega)]

end UcoreKernel.Pipe
