import UcoreKernel.Fs.Sfs.EmptyVolume

/-!
Listing a directory: `sfs_getdirentry` (`fs/sfs/sfs_inode.c`) and `file_getdirentry` (`fs/file.c`).

The offset of a listing counts names, two for `.` and `..` and then one for each slot that is used, while
the slots have holes. Each call goes through the slots from the first one on.
-/

namespace UcoreKernel.Sfs

open List

/-- `sfs_dentry_size`. -/
def dentrySize : ℕ := Name.maxFnameLen + 1

/-- The loop of `sfs_getdirentry_sub_nolock`. -/
def getdirentryLoop : ℕ → Fs → Sin → ℕ → ℕ → Except Panic (Fs × Sin × Except Errno Name)
  | 0, fs, sin, _, _ => .ok (fs, sin, .error .noEnt)
  | left + 1, fs, sin, i, slot => do
      match ← direntRead fs sin i with
      | (fs, sin, none) => return (fs, sin, .error .noMem)
      | (fs, sin, some entry) =>
        if entry.ino = 0 then getdirentryLoop left fs sin (i + 1) slot
        else if slot = 0 then return (fs, sin, .ok entry.name)
        else getdirentryLoop left fs sin (i + 1) (slot - 1)

/-- `sfs_getdirentry`; `mem` tells whether the `kmalloc` succeeds. -/
def getdirentry (mem : Bool) (fs : Fs) (sin : Sin) (offset : ℤ) : Except Panic (Fs × Sin × Except Errno Name) :=
  if mem = false then .ok (fs, sin, .error .noMem)
  else if offset < 0 ∨ offset % dentrySize ≠ 0 then .ok (fs, sin, .error .inval)
  else if sin.din.slots + 2 ≤ offset.toNat / dentrySize then .ok (fs, sin, .error .noEnt)
  else match offset.toNat / dentrySize with
    | 0 => .ok (fs, sin, .ok Vol.dot)
    | 1 => .ok (fs, sin, .ok Vol.dotdot)
    | slot + 2 => getdirentryLoop sin.din.blocks fs sin 0 slot

/-- `file_getdirentry`: a name takes `sfs_dentry_size` bytes of the buffer, and the offset moves by them. -/
def fileGetdirentry (mem : Bool) (fs : Fs) (sin : Sin) (offset : ℤ) :
    Except Panic (Fs × Sin × ℤ × Except Errno Name) := do
  match ← getdirentry mem fs sin offset with
  | (fs, sin, .error err) => return (fs, sin, offset, .error err)
  | (fs, sin, .ok name) => return (fs, sin, offset + dentrySize, .ok name)

/-- At most `calls` calls from an offset on, until one fails: the names, and the error. -/
def listing : ℕ → Fs → Sin → ℤ → Except Panic (List Name × Option Errno)
  | 0, _, _, _ => .ok ([], none)
  | calls + 1, fs, sin, offset => do
      match ← fileGetdirentry true fs sin offset with
      | (_, _, _, .error err) => return ([], some err)
      | (fs, sin, offset, .ok name) =>
        let (names, err) ← listing calls fs sin offset
        return (name :: names, err)

/-- The names in `left` slots from `i` on. -/
def slotNames (fs : Fs) (din : Din) (i left : ℕ) : List Name :=
  (List.range' i left).filterMap fun j => (entries fs din j).map Prod.fst

/-- A directory whose inode counts the slots that are used. -/
structure Dir (fs : Fs) (sin : Sin) : Prop extends Mapped fs sin where
  type : sin.din.type = .dir
  slots : sin.din.slots = (slotNames fs sin.din 0 sin.din.blocks).length

variable {fs : Fs} {sin : Sin} {i slot : ℕ}

section

variable (h : Dir fs sin)
include h

/-- The loop finds the used slot with a number. -/
lemma getdirentryLoop_spec {left : ℕ} (hleft : i + left = sin.din.blocks) : getdirentryLoop left fs sin i slot =
      .ok (fs, sin, ((slotNames fs sin.din i left)[slot]?).elim (.error .noEnt) .ok) := by
  induction left generalizing i slot with
  | zero => simp [getdirentryLoop, slotNames]
  | succ left ih =>
    have hi : i < sin.din.blocks := by omega
    rw [getdirentryLoop, direntRead_spec h.toMapped h.type hi, ok_bind]
    dsimp only
    by_cases hino : (direntAt (content fs sin.din) i).ino = 0
    · have hnone : entries fs sin.din i = none := if_neg fun hne => hne.2 hino
      rw [if_pos hino, ih (by omega)]
      simp [slotNames, range'_succ, hnone]
    · have hsome : entries fs sin.din i = some _ := if_pos ⟨hi, hino⟩
      have hnames : slotNames fs sin.din i (left + 1) =
          (direntAt (content fs sin.din) i).name :: slotNames fs sin.din (i + 1) left := by
        simp [slotNames, range'_succ, hsome]
      rw [if_neg hino, hnames]
      cases slot with
      | zero => rfl
      | succ slot => rw [if_neg (Nat.succ_ne_zero slot), Nat.add_sub_cancel, ih (by omega), getElem?_cons_succ]

/-- The names that a listing shows. -/
def listed (fs : Fs) (din : Din) : List Name := Vol.dot :: Vol.dotdot :: slotNames fs din 0 din.blocks

/-- The call for the name with a number. -/
lemma getdirentry_spec (k : ℕ) : getdirentry true fs sin (k * dentrySize : ℕ) =
    .ok (fs, sin, ((listed fs sin.din)[k]?).elim (.error .noEnt) .ok) := by
  have hpos : 0 < dentrySize := by decide
  have hoffset : ¬(((k * dentrySize : ℕ) : ℤ) < 0 ∨ ((k * dentrySize : ℕ) : ℤ) % dentrySize ≠ 0) := by
    rw [not_or, not_lt, not_not, Nat.cast_mul, Int.mul_emod_left]
    exact ⟨mul_nonneg (Int.natCast_nonneg _) (Int.natCast_nonneg _), rfl⟩
  rw [getdirentry, if_neg (by decide), if_neg hoffset, Int.toNat_natCast, Nat.mul_div_cancel _ hpos]
  split_ifs with hend
  · rw [h.slots] at hend
    rw [getElem?_eq_none hend]
    rfl
  · obtain _ | _ | k := k
    · rfl
    · rfl
    · exact getdirentryLoop_spec h (zero_add _)

lemma fileGetdirentry_spec (k : ℕ) :
    fileGetdirentry true fs sin (k * dentrySize : ℕ) = .ok (match (listed fs sin.din)[k]? with
      | none => (fs, sin, (k * dentrySize : ℕ), .error .noEnt)
      | some name => (fs, sin, ((k + 1) * dentrySize : ℕ), .ok name)) := by
  have hnext : ((k * dentrySize : ℕ) : ℤ) + dentrySize = ((k + 1) * dentrySize : ℕ) := by
    rw [Nat.succ_mul, Nat.cast_add]
  rw [fileGetdirentry, getdirentry_spec h, ok_bind]
  cases (listed fs sin.din)[k]? with
  | none => rfl
  | some name => exact congrArg (fun o => Except.ok (fs, sin, o, Except.ok name)) hnext

/-- The calls from the name with a number on. -/
lemma listing_spec (more k : ℕ) {left : ℕ} (hleft : k + left = (listed fs sin.din).length) :
    listing (left + 1 + more) fs sin (k * dentrySize : ℕ) = .ok ((listed fs sin.din).drop k, some .noEnt) := by
  induction left generalizing k with
  | zero =>
    have hk : (listed fs sin.din).length ≤ k := hleft.ge
    rw [zero_add, add_comm, listing, fileGetdirentry_spec h, ok_bind, getElem?_eq_none hk, drop_of_length_le hk]
    rfl
  | succ left ih =>
    have hk : k < (listed fs sin.din).length := by omega
    rw [add_right_comm left 1 1, add_right_comm (left + 1) 1 more, listing, fileGetdirentry_spec h, ok_bind,
      getElem?_eq_getElem hk, drop_eq_getElem_cons hk]
    dsimp only
    rw [ih (k + 1) (by omega)]
    rfl

end

end UcoreKernel.Sfs
