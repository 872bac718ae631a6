import Mathlib.Tactic

/-!
The data of messages: `load_msg`, `store_msg` and `free_msg` of `sync/mbox.c`.

A message is a block with the first part of the data and a chain of segments with the rest, which is a list
here. The copies from and to user memory succeed; the allocation of a block can fail.
-/

namespace UcoreKernel.Msg

open List

/-- A block: its number, its size, and what was copied behind its header. -/
structure Seg where
  id : ℕ
  size : ℕ
  data : List UInt8

/-- `struct msg_msg`. -/
structure MsgMsg where
  bytes : ℕ
  head : Seg
  next : List Seg

/-- The blocks that `kmalloc` has given, and those that `kfree` has got. -/
structure Heap where
  allocs : List ℕ
  frees : List ℕ

/-- `sizeof(struct msg_seg)`; `wide` are the ports with pointers of 8 bytes. -/
def sizeofSeg (wide : Bool) : ℕ := if wide then 8 else 4

/-- `sizeof(struct msg_msg)`. -/
def sizeofMsg (wide : Bool) : ℕ := 8 + 3 * sizeofSeg wide

def maxMsgDatalen (wide : Bool) : ℕ := 512 - sizeofMsg wide

variable (mem : Heap → ℕ → Bool) (wide : Bool)

/-- `alen`, when `len` bytes are left. -/
def alen (len : ℕ) : ℕ := min len (maxMsgDatalen wide)

/-- `kmalloc`, which succeeds if `mem` says so, and `copy_from_user` into the block. -/
def loadSeg (header : ℕ) (src : List UInt8) (h : Heap) : Option (Seg × Heap) :=
  let id := h.allocs.length
  let size := header + alen wide src.length
  if mem h size then
    some (⟨id, size, src.take (alen wide src.length)⟩, { h with allocs := h.allocs ++ [id] })
  else none

def kfree (seg : Seg) (h : Heap) : Heap := { h with frees := h.frees ++ [seg.id] }

/-- `free_seg`. -/
def freeSeg : List Seg → Heap → Heap
  | [], h => h
  | seg :: segs, h => kfree seg (freeSeg segs h)

def freeMsg (head : Seg) (next : List Seg) (h : Heap) : Heap := kfree head (freeSeg next h)

lemma maxMsgDatalen_pos : 0 < maxMsgDatalen wide := by cases wide <;> decide

/-- The loop of `load_msg`, with the chain so far; whether it has come to its end. -/
def loadLoop (segs : List Seg) (src : List UInt8) (h : Heap) : Bool × List Seg × Heap :=
  if src.length = 0 then (true, segs, h)
  else match loadSeg mem wide (sizeofSeg wide) src h with
    | none => (false, segs, h)
    | some (seg, h) => loadLoop (segs ++ [seg]) (src.drop (alen wide src.length)) h
termination_by src.length
decreasing_by
  have := maxMsgDatalen_pos wide
  rw [length_drop, alen]
  omega

/-- `load_msg`. -/
def loadMsg (src : List UInt8) (h : Heap) : Option MsgMsg × Heap :=
  match loadSeg mem wide (sizeofMsg wide) src h with
  | none => (none, h)
  | some (head, h) =>
      match loadLoop mem wide [] (src.drop (alen wide src.length)) h with
      | (true, segs, h) => (some ⟨src.length, head, segs⟩, h)
      | (false, segs, h) => (none, freeMsg head segs h)

/-- What a turn of `store_msg` copies from the block, which has to have as many bytes. -/
def Seg.read (seg : Seg) (len : ℕ) : Option (List UInt8) :=
  if alen wide len ≤ seg.data.length then some (seg.data.take (alen wide len)) else none

/-- The loop of `store_msg`. -/
def storeLoop : List Seg → ℕ → Option (List UInt8)
  | _, 0 => some []
  | [], _ => none
  | seg :: segs, len => do some ((← seg.read wide len) ++ (← storeLoop segs (len - alen wide len)))

/-- `store_msg`: the bytes that the user gets. -/
def storeMsg (msg : MsgMsg) : Option (List UInt8) := do
  let len := msg.bytes
  some ((← msg.head.read wide len) ++ (← storeLoop wide msg.next (len - alen wide len)))

/-- The block has room for what was copied into it. -/
def Seg.Fits (header : ℕ) (seg : Seg) : Prop := header + seg.data.length ≤ seg.size

variable {mem wide} {src : List UInt8} {h h' : Heap} {segs segs' : List Seg} {done : Bool}

lemma freeSeg_eq : freeSeg segs h = { h with frees := h.frees ++ (segs.map Seg.id).reverse } := by
  induction segs with
  | nil => simp [freeSeg]
  | cons seg segs ih => simp [freeSeg, kfree, ih]

/-- A block with the next part of the message. -/
lemma loadSeg_spec {header : ℕ} {seg : Seg} (hk : loadSeg mem wide header src h = some (seg, h')) :
    seg.read wide src.length = some (src.take (alen wide src.length)) ∧ seg.Fits header ∧
      h' = { h with allocs := h.allocs ++ [seg.id] } := by
  simp only [loadSeg, Option.ite_none_right_eq_some, Option.some.injEq, Prod.mk.injEq] at hk
  obtain ⟨-, rfl, rfl⟩ := hk
  simp [Seg.read, Seg.Fits, alen]

/-- The segments that the loop appends, one for each part that has been begun. -/
lemma loadLoop_spec (hrun : loadLoop mem wide segs src h = (done, segs', h')) :
    ∃ new, segs' = segs ++ new ∧ h' = { h with allocs := h.allocs ++ new.map Seg.id } ∧
      (∀ seg ∈ new, seg.Fits (sizeofSeg wide)) ∧ (done = true → storeLoop wide new src.length = some src ∧
        ∀ k, k < new.length ↔ k * maxMsgDatalen wide < src.length) := by
  fun_induction loadLoop mem wide segs src h with
  | case1 segs src h hsrc =>
    cases hrun
    cases length_eq_zero_iff.mp hsrc
    exact ⟨[], by simp [storeLoop]⟩
  | case2 segs src h hsrc hk =>
    cases hrun
    exact ⟨[], by simp⟩
  | case3 segs src h hsrc seg h₁ hk ih =>
    obtain ⟨hread, hfit, rfl⟩ := loadSeg_spec hk
    obtain ⟨new, rfl, rfl, hfits, hdone⟩ := ih hrun
    refine ⟨seg :: new, by simp, by simp, forall_mem_cons.mpr ⟨hfit, hfits⟩, fun hd => ?_⟩
    obtain ⟨hstore, hlen⟩ := hdone hd
    rw [length_drop] at hstore hlen
    refine ⟨?_, fun k => ?_⟩
    · rw [storeLoop.eq_3 _ _ _ _ hsrc, hread, hstore]
      simp
    · rw [alen] at hlen
      cases k with
      | zero => simp; omega
      | succ k =>
        have := hlen k
        rw [length_cons, Nat.succ_mul]
        omega

end UcoreKernel.Msg
