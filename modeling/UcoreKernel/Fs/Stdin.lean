import UcoreKernel.Lib.RingBuf

/-!
The buffer of the console (`fs/devs/dev_stdin.c`).

A character is stored before it is tested whether there is room. If there is none, `p_wpos` stays,
but the cell is that of the oldest character that has not been read.
-/

namespace UcoreKernel.Stdin

open RingBuf Function List

variable {w : ℕ}

/-- `STDIN_BUFSIZE`. -/
def bufsize : ℕ := 4096

/-- `stdin_buffer`, and the positions, which have `w` bits. -/
structure StdinState (w : ℕ) where
  buf : ℤ → UInt8
  pRpos : BitVec w
  pWpos : BitVec w

/-- The cell of a position. -/
def cell (pos : BitVec w) : ℤ := pos.toInt.tmod bufsize

/-- `dev_stdin_write`. -/
def devStdinWrite (st : StdinState w) (c : UInt8) : StdinState w :=
  if c = 0 then st
  else
    { st with
      buf := update st.buf (cell st.pWpos) c
      pWpos := if (st.pWpos - st.pRpos).toInt < bufsize then st.pWpos + 1 else st.pWpos }

/-- `dev_stdin_read` with `left` characters still to read, until it returns or sleeps. -/
def devStdinRead : ℕ → StdinState w → StdinState w × List UInt8
  | 0, st => (st, [])
  | left + 1, st =>
    if st.pRpos.toInt < st.pWpos.toInt then
      let r := devStdinRead left { st with pRpos := st.pRpos + 1 }
      (r.1, st.buf (cell st.pRpos) :: r.2)
    else (st, [])

/-- `stdin_device_init`. -/
def stdinInit (w : ℕ) : StdinState w := ⟨fun _ => 0, 0, 0⟩

/-- A character is typed, or a process comes to read or is woken up in the middle of a read. -/
inductive Event where
  | typed (c : UInt8)
  | read (left : ℕ)

/-- The characters typed. -/
def typed : List Event → List UInt8
  | [] => []
  | .typed c :: es => c :: typed es
  | .read _ :: es => typed es

/-- The characters returned. -/
def returned (st : StdinState w) : List Event → List UInt8
  | [] => []
  | .typed c :: es => returned (devStdinWrite st c) es
  | .read left :: es => (devStdinRead left st).2 ++ returned (devStdinRead left st).1 es

/-- `P` holds whenever a character is typed. -/
def Always (P : StdinState w → UInt8 → Prop) (st : StdinState w) : List Event → Prop
  | [] => True
  | .typed c :: es => P st c ∧ Always P (devStdinWrite st c) es
  | .read left :: es => Always P (devStdinRead left st).1 es

def IsFull (st : StdinState w) : Prop := ¬(st.pWpos - st.pRpos).toInt < bufsize

/-- The characters that have not been read. -/
def unread (st : StdinState w) : List UInt8 :=
  (range (st.pWpos - st.pRpos).toNat).map fun i => st.buf (cell (st.pRpos + BitVec.ofNat w i))

/-- A full buffer keeps the characters that have not been read. -/
def Keeps (st : StdinState w) (c : UInt8) : Prop :=
  IsFull st → unread (devStdinWrite st c) = unread st

/-- What is typed when the buffer is full is nothing, or the oldest character that has not been read. -/
def Repeats (st : StdinState w) (c : UInt8) : Prop :=
  IsFull st → c = 0 ∨ c = st.buf (cell st.pRpos)

/-- The characters `acc` have been accepted and the first `r` of them returned. -/
structure Inv (st : StdinState w) (acc : List UInt8) (r : ℕ) : Prop where
  rpos : st.pRpos = BitVec.ofNat w r
  wpos : st.pWpos = BitVec.ofNat w acc.length
  le : r ≤ acc.length
  room : acc.length ≤ r + bufsize
  holds : Holds bufsize (st.buf ∘ Nat.cast) acc r

variable {st : StdinState w} {acc : List UInt8} {r n : ℕ} {c : UInt8} {es : List Event}

lemma inv_init : Inv (stdinInit w) [] 0 := ⟨rfl, rfl, le_rfl, Nat.zero_le _, holds_nil _ _ _⟩

lemma toInt_ofNat (hn : n < 2 ^ (w - 1)) : (BitVec.ofNat w n).toInt = n := by
  have hle : 2 ^ (w - 1) ≤ 2 ^ w := Nat.pow_le_pow_right (by decide) (Nat.sub_le ..)
  have hnat : (BitVec.ofNat w n).toNat = n := Nat.mod_eq_of_lt (hn.trans_le hle)
  rw [BitVec.toInt_eq_toNat_of_lt, hnat]
  obtain _ | w := w
  · simp_all
  · grind

lemma cell_ofNat (hn : n < 2 ^ (w - 1)) : cell (BitVec.ofNat w n) = (n % bufsize : ℕ) := by
  rw [cell, toInt_ofNat hn]
  rfl

section

variable (h : Inv st acc r) (hs : acc.length < 2 ^ (w - 1))
include h hs

lemma Inv.isFull_iff : IsFull st ↔ acc.length = r + bufsize := by
  have hsub : st.pWpos - st.pRpos = BitVec.ofNat w (acc.length - r) := by
    rw [h.rpos, h.wpos, ← Nat.add_sub_cancel' h.le, BitVec.ofNat_add, BitVec.add_comm,
      BitVec.add_sub_cancel, Nat.add_sub_cancel_left]
  have := h.le
  have := h.room
  rw [IsFull, hsub, toInt_ofNat (by omega)]
  omega

/-- The oldest character that has not been read. -/
lemma Inv.front (hr : r < acc.length) : acc[r]? = some (st.buf (cell st.pRpos)) := by
  rw [h.rpos, cell_ofNat (hr.trans hs)]
  exact h.holds.front hr

/-- The cell after the last is that of the oldest. -/
lemma Inv.write_full (hfull : IsFull st) (hc : c ≠ 0) :
    devStdinWrite st c = { st with buf := update st.buf (cell st.pRpos) c } := by
  have hEq := (h.isFull_iff hs).mp hfull
  have hcell : cell st.pWpos = cell st.pRpos := by
    rw [h.wpos, h.rpos, cell_ofNat hs, cell_ofNat (by omega), hEq, Nat.add_mod_right]
  rw [devStdinWrite, if_neg hc, if_neg hfull, hcell]

/-- A character that is typed when the buffer is full. -/
lemma keeps_iff : Keeps st c ↔ Repeats st c := by
  refine forall_congr' fun hfull => ?_
  by_cases hc : c = 0
  · simp [devStdinWrite, hc]
  rw [h.write_full hs hfull hc]
  constructor
  · intro hEq
    have hpos : 0 < (st.pWpos - st.pRpos).toNat := by
      refine pos_of_ne_zero fun hzero => hfull ?_
      rw [BitVec.toInt, hzero]
      simp [bufsize]
    have hfirst := map_inj_left.mp hEq 0 (mem_range.mpr hpos)
    exact .inr (by simpa using hfirst)
  · rintro (hzero | rfl)
    · exact absurd hzero hc
    · rw [update_eq_self]

lemma accept_inv (hroom : acc.length < r + bufsize) (hc : c ≠ 0) : Inv (devStdinWrite st c) (acc ++ [c]) r := by
  have hfull : ¬IsFull st := fun hfull => hroom.ne ((h.isFull_iff hs).mp hfull)
  rw [devStdinWrite, if_neg hc, if_pos (not_not.mp hfull)]
  refine ⟨h.rpos, ?_, by grind [h.le], by grind, ?_⟩
  · rw [length_append, length_singleton, BitVec.ofNat_add, ← h.wpos]
    rfl
  · rw [h.wpos, cell_ofNat hs, update_comp_eq_of_injective _ Nat.cast_injective]
    exact h.holds.push hroom c

/-- A character is accepted, or nothing changes. -/
lemma write_inv (hc : Repeats st c) : ∃ acc', Inv (devStdinWrite st c) acc' r ∧ acc'.length ≤ acc.length + 1 ∧
      acc'.drop r <+ acc.drop r ++ [c] := by
  by_cases hzero : c = 0
  · exact ⟨acc, by rwa [devStdinWrite, if_pos hzero], Nat.le_succ _, sublist_append_left ..⟩
  by_cases hfull : IsFull st
  · rw [h.write_full hs hfull hzero, (hc hfull).resolve_left hzero, update_eq_self]
    exact ⟨acc, h, Nat.le_succ _, sublist_append_left ..⟩
  · have hroom := h.room.lt_of_ne (mt (h.isFull_iff hs).mpr hfull)
    refine ⟨acc ++ [c], accept_inv h hs hroom hzero, by simp, ?_⟩
    rw [drop_append_of_le_length h.le]

/-- A read returns the oldest characters. -/
lemma read_inv (left : ℕ) : ∃ r', Inv (devStdinRead left st).1 acc r' ∧
    (devStdinRead left st).2 ++ acc.drop r' = acc.drop r := by
  induction left generalizing st r with
  | zero => exact ⟨r, h, rfl⟩
  | succ left ih =>
    have hiff : st.pRpos.toInt < st.pWpos.toInt ↔ r < acc.length := by
      rw [h.wpos, h.rpos, toInt_ofNat (h.le.trans_lt hs), toInt_ofNat hs, Nat.cast_lt]
    rw [devStdinRead]
    split_ifs with hlt
    · rw [hiff] at hlt
      have hnext : Inv { st with pRpos := st.pRpos + 1 } acc (r + 1) :=
        ⟨by rw [BitVec.ofNat_add, ← h.rpos]; rfl, h.wpos, hlt, by grind [h.room], h.holds.advance (Nat.le_succ r)⟩
      obtain ⟨r', hinv, hEq⟩ := ih hnext
      have hfront := h.front hs hlt
      exact ⟨r', hinv, by grind [drop_eq_getElem_cons]⟩
    · exact ⟨r, h, rfl⟩

end

/-- From any state, what is returned is what waits and then some of what is typed. -/
lemma run_spec (h : Inv st acc r) (hs : acc.length + (typed es).length < 2 ^ (w - 1)) :
    (Always Keeps st es ↔ Always Repeats st es) ∧
      (Always Repeats st es → returned st es <+ acc.drop r ++ typed es) := by
  induction es generalizing st acc r with
  | nil => exact ⟨.rfl, fun _ => nil_sublist _⟩
  | cons e es ih =>
    cases e with
    | typed c =>
      rw [typed, length_cons] at hs
      constructor
      · rw [Always, Always, keeps_iff h (by omega)]
        refine and_congr_right fun hc => ?_
        obtain ⟨acc', hinv, hlen, -⟩ := write_inv h (by omega) hc
        exact (ih hinv (by omega)).1
      · intro ⟨hc, hall⟩
        obtain ⟨acc', hinv, hlen, hsub⟩ := write_inv h (by omega) hc
        refine ((ih hinv (by omega)).2 hall).trans ?_
        rw [typed, append_cons]
        exact hsub.append_right _
    | read left =>
      obtain ⟨r', hinv, hEq⟩ := read_inv h (by omega) left
      refine ⟨(ih hinv hs).1, fun hall => ?_⟩
      rw [← hEq, append_assoc]
      exact ((ih hinv hs).2 hall).append_left _

/-- The state after `n` times the same character, if there is room for them. -/
lemma exists_filled {P : StdinState w → UInt8 → Prop} (h : Inv st acc r) (hc : c ≠ 0)
    (hroom : acc.length + n ≤ r + bufsize) (hs : acc.length + n < 2 ^ (w - 1))
    (hall : Always P st (replicate n (.typed c) ++ es)) :
    ∃ st', Inv st' (acc ++ replicate n c) r ∧ Always P st' es := by
  induction n generalizing st acc with
  | zero => exact ⟨st, by simpa using h, hall⟩
  | succ n ih =>
    have hnext := accept_inv h (by omega) (by omega) hc
    rw [replicate_succ, append_cons]
    exact ih hnext (by grind) (by grind) hall.2

end UcoreKernel.Stdin
