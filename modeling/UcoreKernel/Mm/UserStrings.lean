import UcoreKernel.Mm.UserAccess

/-!
`kern-ucore/mm/vmm.c` and `kern-ucore/arch/i386/mm/vmm.c`: what the check of a range of user memory
means for its bytes, and the copy of a string from user memory.

`user_mem_check` goes from VMA to VMA, and `copy_string` from page to page with one check for each
page. VMAs consist of whole pages, so the check of the rest of a page says no more than the check of
its first byte.
-/

namespace UcoreKernel.Vmm

open List

variable {P : Type} {A : Layout} {mm : Mm} {src maxn part : ℕ}

/-- **The check of a range.**  For every address space that a sequence of calls reaches, and every
address, length and kind of access, `user_mem_check` returns; it returns 1 exactly if the range is not
empty, does not wrap around and lies in user memory, every byte of it is in a VMA that allows the
access, and, for writing, no byte is in the lowest page of a stack. -/
theorem userMemCheck_iff_bytes (A : Layout) (pops : PageOps P) (K : Kmalloc) (kernel : Kernel P)
    (calls : List Op) (σ : System P) (hrun : run A pops K ⟨kernel, fun _ => none⟩ calls = .ok σ)
    (a : ℕ) (mm : Mm) (hmm : σ.mms a = some mm) (addr len : ℕ) (haddr : addr < 2 ^ A.wordBits)
    (hlen : len < 2 ^ A.wordBits) (write : Bool) : ∃ ok mm', userMemCheck A mm addr len write = .ok (ok, mm') ∧
      (ok = true ↔ 0 < len ∧ addr + len < 2 ^ A.wordBits ∧ A.userBase ≤ addr ∧
        addr + len ≤ A.userTop ∧ ∀ b, addr ≤ b → b < addr + len →
          mm.At b (·.has (checkFlag write) = true) ∧ (write = true → ¬mm.At b (·.Guards A b))) := by
  have hinv : MmInv A mm := by grind [SysInv, Except.Ensures, run_ensures]
  obtain ⟨ok, cache, hcheck, -, hiff⟩ := userMemCheck_spec hinv addr len write
  refine ⟨ok, _, hcheck, hiff.trans ?_⟩
  -- the two parts of the rule are about the same VMA
  have hbyte : ∀ b, mm.At b (·.Checks A write b) ↔
      mm.At b (·.has (checkFlag write) = true) ∧ (write = true → ¬mm.At b (·.Guards A b)) := by
    intro b
    constructor
    · rintro ⟨v, hv, hvb, hflag, hguard⟩
      refine ⟨⟨v, hv, hvb, hflag⟩, fun hw => ?_⟩
      rw [Mm.at_iff_of_covers hinv hv hvb]
      exact hguard hw
    · rintro ⟨⟨v, hv, hvb, hflag⟩, hguard⟩
      exact ⟨v, hv, hvb, hflag, fun hw hg => hguard hw ⟨v, hv, hvb, hg⟩⟩
  simp only [hbyte]
  obtain hlt | hge := lt_or_ge (addr + len) (2 ^ A.wordBits)
  · rw [Nat.mod_eq_of_lt hlt, Layout.UserAccess]
    constructor
    · rintro ⟨⟨hbase, hne, hend⟩, hall⟩
      exact ⟨by omega, hlt, hbase, hend, hall⟩
    · rintro ⟨hne, -, hbase, hend, hall⟩
      exact ⟨⟨hbase, by omega, hend⟩, hall⟩
  · -- the end of a range that wraps around is not above its start
    have hmod := (Nat.mod_eq_sub_mod hge).trans (Nat.mod_eq_of_lt (by omega))
    rw [hmod, Layout.UserAccess]
    constructor
    · rintro ⟨⟨-, hne, -⟩, -⟩
      omega
    · rintro ⟨-, hlt, -⟩
      omega

lemma exists_stackRun : ∃ σ mm, stackRun = .ok σ ∧ σ.mms 7 = some mm := by
  have hmm : (stackRun.toOption.bind fun σ => (σ.mms 7).map fun mm => mm.mapCount) = some 1 := by
    decide +kernel
  obtain ⟨σ, hσ, hmap⟩ := exists_ok_of_bind hmm
  obtain ⟨mm, hmm, -⟩ := Option.map_eq_some_iff.mp hmap
  exact ⟨σ, mm, hσ, hmm⟩

/-- Writing to the two upper pages of a stack of three pages is allowed. -/
theorem userMemCheck_iff_bytes_stack : ∃ σ mm, stackRun = .ok σ ∧ σ.mms 7 = some mm ∧
      ∃ ok mm', userMemCheck Layout.i386 mm 0x801000 0x2000 true = .ok (ok, mm') ∧
        (ok = true ↔ 0 < 0x2000 ∧ 0x801000 + 0x2000 < 2 ^ 32 ∧ 0x200000 ≤ 0x801000 ∧
          0x801000 + 0x2000 ≤ 0xB0000000 ∧ ∀ b, 0x801000 ≤ b → b < 0x801000 + 0x2000 →
            mm.At b (·.has (checkFlag true) = true) ∧
              (true = true → ¬mm.At b (·.Guards Layout.i386 b))) := by
  obtain ⟨σ, mm, hrun, hmm⟩ := exists_stackRun
  exact ⟨σ, mm, hrun, hmm,
    userMemCheck_iff_bytes _ _ _ _ _ σ hrun 7 mm hmm 0x801000 0x2000 (by decide) (by decide) true⟩

/-! ### `copy_string` -/

/-- What the kernel reads in user memory: the bytes for which the page fault handler has a page.
The others have no contents, and a read of them ends in a panic. -/
structure Content (A : Layout) (mm : Mm) where
  byte : ℕ → Option UInt8
  isSome_iff : ∀ b, (byte b).isSome = true ↔ mm.At b (·.Admits A false b)

/-- The contents of a byte that can be read. -/
def Content.get (mem : Content A mm) (b : ℕ) : UInt8 := (mem.byte b).getD 0

variable (A) in
/-- Reading is allowed, and the handler has a page. -/
def Mm.Readable (mm : Mm) (b : ℕ) : Prop := mm.At b fun v => v.has vmRead = true ∧ ¬v.Guards A b

/-- A read of one byte. -/
def readByte (byte : ℕ → Option UInt8) (b : ℕ) : Except Crash UInt8 :=
  (byte b).elim (.error (.pgfault .inval)) .ok

/-- `strnlen`. -/
def strnlen (byte : ℕ → Option UInt8) : ℕ → ℕ → Except Crash ℕ
  | _, 0 => .ok 0
  | s, len + 1 => do
      let c ← readByte byte s
      if c = 0 then return 0
      else do
        let cnt ← strnlen byte (s + 1) len
        return cnt + 1

/-- `memcpy` from user memory; returns what it writes. -/
def memcpyUser (byte : ℕ → Option UInt8) : ℕ → ℕ → Except Crash (List UInt8)
  | _, 0 => .ok []
  | src, n + 1 => do
      let c ← readByte byte src
      let rest ← memcpyUser byte (src + 1) n
      return c :: rest

variable (A) in
/-- The loop of `copy_string`, with a bound on its number of turns. It returns what it has written
from `dst` on. -/
def copyStringLoop (byte : ℕ → Option UInt8) : ℕ → Mm → ℕ → ℕ → ℕ → Except Crash (Bool × List UInt8 × Mm)
  | 0, _, _, _, _ => .error (.stop .assertion)
  | fuel + 1, mm, src, maxn, part =>
    let part := if part > maxn then maxn else part
    match userMemCheck A mm src part false with
    | .error e => .error (.stop e)
    | .ok (false, mm) => .ok (false, [], mm)
    | .ok (true, mm) => do
        let alen ← strnlen byte src part
        if alen < part then do
          let out ← memcpyUser byte src (alen + 1)
          return (true, out, mm)
        else if part = maxn then return (false, [], mm)
        else do
          let out ← memcpyUser byte src part
          let r ← copyStringLoop byte fuel mm ((src + part) % 2 ^ A.wordBits) (maxn - part) A.pgsize
          return (r.1, out ++ r.2.1, r.2.2)

variable (A) in
/-- `copy_string`, for an address space. -/
def copyString (byte : ℕ → Option UInt8) (mm : Mm) (src maxn : ℕ) : Except Crash (Bool × List UInt8 × Mm) :=
  let part := (A.roundDown ((src + A.pgsize) % 2 ^ A.wordBits) + 2 ^ A.wordBits - src) % 2 ^ A.wordBits
  copyStringLoop A byte (maxn + 1) mm src maxn part

/-- There is a byte wherever reading is allowed. -/
lemma Content.byte_of_readable {b : ℕ} (mem : Content A mm) (h : mm.Readable A b) :
    mem.byte b = some (mem.get b) := by
  have hsome : (mem.byte b).isSome = true := by
    rw [mem.isSome_iff]
    refine h.mono fun v _ hv => ⟨hv.2, ?_⟩
    rw [faultFlags, if_neg Bool.false_ne_true, Vma.has_or, hv.1, Bool.true_or]
  obtain ⟨c, hc⟩ := Option.isSome_iff_exists.mp hsome
  rw [Content.get, hc, Option.getD_some]

variable {byte : ℕ → Option UInt8} {f : ℕ → UInt8}

/-- The two functions of the string library, where all bytes can be read. -/
lemma strnlen_spec (n : ℕ) (h : ∀ i < n, byte (src + i) = some (f (src + i))) :
    ∃ k ≤ n, strnlen byte src n = .ok k ∧ (∀ i < k, f (src + i) ≠ 0) ∧ (k < n → f (src + k) = 0) := by
  induction n generalizing src with
  | zero => exact ⟨0, le_rfl, rfl, by simp, by simp⟩
  | succ n ih =>
    have hfirst : readByte byte src = .ok (f src) := by simp [readByte, show byte src = _ from h 0 (by omega)]
    rw [strnlen, hfirst, ok_bind]
    by_cases hzero : f src = 0
    · exact ⟨0, by omega, by simp [hzero], by simp, fun _ => hzero⟩
    · obtain ⟨k, hk, hrun, hne, heq⟩ := @ih (src + 1) fun i hi => by
        have := h (i + 1) (by omega)
        rwa [show src + (i + 1) = src + 1 + i by omega] at this
      refine ⟨k + 1, by omega, by simp [hzero, hrun], fun i hi => ?_, fun hlt => ?_⟩
      · cases i with
        | zero => exact hzero
        | succ i => grind
      · grind

lemma memcpyUser_spec (n : ℕ) (h : ∀ i < n, byte (src + i) = some (f (src + i))) :
    memcpyUser byte src n = .ok ((range n).map fun i => f (src + i)) := by
  induction n generalizing src with
  | zero => rfl
  | succ n ih =>
    have hfirst : readByte byte src = .ok (f src) := by simp [readByte, show byte src = _ from h 0 (by omega)]
    have hrest := @ih (src + 1) fun i _ => by
      have := h (i + 1) (by omega)
      rwa [show src + (i + 1) = src + 1 + i by omega] at this
    rw [memcpyUser, hfirst, ok_bind, hrest, range_succ_eq_map]
    simp only [ok_bind, map_cons, map_map]
    exact congrArg _ (congrArg _ (map_congr_left fun i _ => by rw [Function.comp]; congr 1; omega))

/-- The check of a part of one page is the check of its first byte, and what one of its bytes allows
all of them allow. -/
lemma userMemCheck_piece (h : MmInv A mm) (hpos : 0 < part) (hpage : src % A.pgsize + part ≤ A.pgsize) :
    ∃ ok cache, userMemCheck A mm src part false = .ok (ok, { mm with mmapCache := cache }) ∧
      MmInv A { mm with mmapCache := cache } ∧ (ok = true ↔ mm.At src (·.has vmRead = true)) ∧
      (ok = true → src + part < 2 ^ A.wordBits) ∧
      ∀ b, src ≤ b → b < src + part → ∀ p : Vma → Prop,
        (mm.At b (fun v => p v ∧ ¬v.Guards A b) ↔ mm.At src fun v => p v ∧ ¬v.Guards A src) := by
  -- a VMA has all of the piece or nothing, and so does its lowest page
  have hsame : ∀ b, src ≤ b → b < src + part → ∀ x, A.pgsize ∣ x → (x ≤ src ↔ x ≤ b) := by
    rintro b hb hb' x ⟨q, rfl⟩
    have hdiv := Nat.div_add_mod src A.pgsize
    refine ⟨fun hx => hx.trans hb, fun hx => ?_⟩
    by_contra hlt
    have hq : src / A.pgsize < q := by
      by_contra hle
      exact hlt ((Nat.mul_le_mul_left _ (not_lt.mp hle)).trans (by omega))
    have := Nat.mul_le_mul_left A.pgsize hq
    rw [Nat.mul_succ] at this
    omega
  have hcovers : ∀ b, src ≤ b → b < src + part → ∀ a ∈ mm.mmapList,
      ((mm.vmas a).Covers b ↔ (mm.vmas a).Covers src) := by
    intro b hb hb' a ha
    have huser := h.inUser a ha
    have hstart := hsame b hb hb' _ huser.dvdStart
    have hend := hsame b hb hb' _ huser.dvdEnd
    simp only [Vma.Covers]
    omega
  obtain ⟨ok, cache, hcheck, hinv, hiff⟩ := userMemCheck_spec h src part false
  have hrange : ∀ a ∈ mm.mmapList, (mm.vmas a).Covers src →
      A.userBase ≤ src ∧ src + part ≤ A.userTop ∧ src + part < 2 ^ A.wordBits := by
    intro a ha hcov
    have hlast := (hcovers (src + part - 1) (by omega) (by omega) a ha).mpr hcov
    have haccess := (h.inUser a ha).access
    have hword := A.userTop_le
    simp only [Vma.Covers, Layout.UserAccess] at hlast hcov haccess
    omega
  have hread : A.UserAccess src ((src + part) % 2 ^ A.wordBits) ∧ (∀ b, src ≤ b →
      b < (src + part) % 2 ^ A.wordBits → mm.At b (·.Checks A false b)) ↔
      mm.At src (·.has vmRead = true) := by
    constructor
    · rintro ⟨⟨-, hlt, -⟩, hall⟩
      exact (hall src le_rfl hlt).mono fun v _ hv => hv.1
    · rintro ⟨a, ha, hcov, hread⟩
      obtain ⟨hbase, htop, hword⟩ := hrange a ha hcov
      rw [Nat.mod_eq_of_lt hword, Layout.UserAccess]
      exact ⟨by omega, fun b hb hb' => ⟨a, ha, (hcovers b hb hb' a ha).mpr hcov, hread, by simp⟩⟩
  refine ⟨ok, cache, hcheck, hinv, hiff.trans hread, fun hok => ?_, fun b hb hb' p => ?_⟩
  · obtain ⟨a, ha, hcov, -⟩ := (hiff.trans hread).mp hok
    exact (hrange a ha hcov).2.2
  · refine exists_congr fun a => and_congr_right fun ha => and_congr (hcovers b hb hb' a ha) ?_
    have hguard := hsame b hb hb' _ (Dvd.dvd.add (h.inUser a ha).dvdStart (dvd_refl _))
    simp only [Vma.Guards]
    rw [← not_le, ← not_le, ← hguard]

/-- A string from `src` on, of which every byte can be read: its NUL is at `n`. -/
def Content.IsString (mem : Content A mm) (src n : ℕ) : Prop :=
  mem.byte (src + n) = some 0 ∧ (∀ i < n, mem.byte (src + i) ≠ some 0) ∧
    ∀ i ≤ n, mm.Readable A (src + i)

/-- What a run of `copy_string` may end in. -/
def Copied (mem : Content A mm) (src maxn : ℕ) : Except Crash (Bool × List UInt8 × Mm) → Prop
  | .ok (true, out, _) => ∃ n < maxn, mem.IsString src n ∧
      out = (List.range (n + 1)).map fun i => mem.get (src + i)
  | .ok (false, out, _) => (∀ n < maxn, ¬mem.IsString src n) ∧ out.length ≤ maxn
  | .error e => e = .pgfault .inval ∧ (∀ n < maxn, ¬mem.IsString src n) ∧
      ∃ i < maxn, mm.At (src + i) (·.Guards A (src + i))

/-- The string goes on behind a part of it that has no NUL. -/
lemma isString_add_iff (mem : Content A mm) (n : ℕ) (hread : ∀ i < part, mm.Readable A (src + i))
    (hne : ∀ i < part, mem.byte (src + i) ≠ some 0) :
    mem.IsString src (part + n) ↔ mem.IsString (src + part) n := by
  have hforall : ∀ p : ℕ → Prop, (∀ i < part, p (src + i)) → ∀ m,
      ((∀ i < part + m, p (src + i)) ↔ ∀ i < m, p (src + part + i)) := by
    intro p hp m
    refine ⟨fun h i hi => ?_, fun h i hi => ?_⟩
    · have := h (part + i) (by omega)
      rwa [← add_assoc] at this
    · obtain hlt | hge := lt_or_ge i part
      · exact hp i hlt
      · have := h (i - part) (by omega)
        rwa [show src + part + (i - part) = src + i by omega] at this
  simp only [Content.IsString, ← Nat.lt_succ_iff, ← Nat.add_succ]
  rw [hforall (mem.byte · ≠ some 0) hne n, hforall (mm.Readable A) hread (n + 1), ← add_assoc]

/-- The copy of a part of the string, and then of the rest. -/
lemma Copied.append {mem : Content A mm} {r : Except Crash (Bool × List UInt8 × Mm)}
    (h : Copied mem (src + part) (maxn - part) r) (hmax : part ≤ maxn)
    (hread : ∀ i < part, mm.Readable A (src + i)) (hne : ∀ i < part, mem.byte (src + i) ≠ some 0) :
    Copied mem src maxn (do
      let r ← r
      return (r.1, ((range part).map fun i => mem.get (src + i)) ++ r.2.1, r.2.2)) := by
  have hnone : (∀ n < maxn - part, ¬mem.IsString (src + part) n) → ∀ n < maxn, ¬mem.IsString src n := by
    intro hall n hn hstr
    obtain hlt | hge := lt_or_ge n part
    · exact hne n hlt hstr.1
    · obtain ⟨m, rfl⟩ := Nat.exists_eq_add_of_le hge
      exact hall m (by omega) ((isString_add_iff mem m hread hne).mp hstr)
  match r, h with
  | .ok (true, out, _), ⟨n, hn, hstr, hout⟩ =>
    refine ⟨part + n, by omega, (isString_add_iff mem n hread hne).mpr hstr, ?_⟩
    have hrange : range (part + (n + 1)) = range part ++ (range (n + 1)).map (part + ·) := range_add
    rw [hout, add_assoc, hrange, map_append, map_map]
    simp only [Function.comp_def, add_assoc]
  | .ok (false, out, _), ⟨hall, hlen⟩ =>
    refine ⟨hnone hall, ?_⟩
    dsimp only
    rw [length_append, length_map, length_range]
    omega
  | .error _, ⟨he, hall, i, hi, hguard⟩ =>
    exact ⟨he, hnone hall, part + i, by omega, by rwa [← add_assoc]⟩

/-- The loop of `copy_string`, at a source address from which `part` bytes are left in the page. -/
lemma copyStringLoop_spec (h : MmInv A mm) (mem : Content A mm) (fuel : ℕ) {mm' : Mm} (hmm' : Cached A mm mm')
    (hfuel : maxn < fuel) (hsrc : src < 2 ^ A.wordBits) (hpos : 0 < part)
    (hpage : src % A.pgsize + part = A.pgsize) :
    Copied mem src maxn (copyStringLoop A mem.byte fuel mm' src maxn part) := by
  induction fuel generalizing mm' src maxn part with
  | zero => omega
  | succ fuel ih =>
    rw [copyStringLoop]
    set n := if part > maxn then maxn else part with hdef
    have hn : n = min maxn part := by grind
    obtain rfl | hmax := eq_zero_or_pos maxn
    · -- an empty range is never accepted
      have hcheck : userMemCheck A mm' src n false = .ok (false, mm') := by
        simp [userMemCheck, Layout.UserAccess, hn, Nat.mod_eq_of_lt hsrc]
      rw [hcheck]
      exact ⟨by simp, by simp⟩
    obtain ⟨cache, rfl, hinv⟩ := hmm'
    obtain ⟨ok, cache', hcheck, hinv', hok, hword, hsame⟩ :=
      @userMemCheck_piece A _ src n hinv (by omega) (by omega)
    have hok : ok = true ↔ mm.At src (·.has vmRead = true) := hok
    have hsame : ∀ i < n, mm.At src (fun v => v.has vmRead = true ∧ ¬v.Guards A src) →
        mm.Readable A (src + i) :=
      fun i hi hsrc => (hsame (src + i) (by omega) (by omega) (·.has vmRead = true)).mpr hsrc
    rw [hcheck]
    have hnone : ¬mm.Readable A src → ∀ k < maxn, ¬mem.IsString src k :=
      fun hno k _ hstr => hno (hstr.2.2 0 (by omega))
    cases ok with
    | false =>
      refine ⟨hnone fun hread => ?_, by simp⟩
      exact Bool.false_ne_true (hok.mpr (hread.mono fun v _ hv => hv.1))
    | true =>
      obtain ⟨a, ha, hcov, hflag⟩ := hok.mp rfl
      by_cases hguard : (mm.vmas a).Guards A src
      · -- the first byte is in the lowest page of a stack
        have hno : ¬mm.Readable A src := fun hread =>
          ((Mm.at_iff_of_covers h ha hcov).mp hread).2 hguard
        have hbyte : mem.byte src = none := by
          rw [← Option.not_isSome_iff_eq_none, mem.isSome_iff]
          exact fun hat => ((Mm.at_iff_of_covers h ha hcov).mp hat).1 hguard
        obtain ⟨m, hm⟩ : ∃ m, n = m + 1 := ⟨n - 1, by omega⟩
        have hlen : strnlen mem.byte src n = .error (.pgfault .inval) := by
          rw [hm, strnlen, readByte, hbyte]
          rfl
        rw [hlen]
        exact ⟨rfl, hnone hno, 0, hmax, a, ha, hcov, hguard⟩
      · have hread : ∀ i < n, mm.Readable A (src + i) := fun i hi =>
          hsame i hi ⟨a, ha, hcov, hflag, hguard⟩
        have hbyte : ∀ i < n, mem.byte (src + i) = some (mem.get (src + i)) := fun i hi =>
          mem.byte_of_readable (hread i hi)
        obtain ⟨k, -, hlen, hne, hzero⟩ := strnlen_spec n hbyte
        dsimp only
        rw [hlen, ok_bind]
        split_ifs with hlt hlast
        · rw [memcpyUser_spec (k + 1) fun i hi => hbyte i (by omega)]
          refine ⟨k, by omega, ⟨?_, fun i hi => ?_, fun i hi => hread i (by omega)⟩, rfl⟩
          · rw [hbyte k hlt, hzero hlt]
          · rw [hbyte i (by omega)]
            exact fun h => hne i hi (Option.some.inj h)
        · -- there are no more than the bytes of this piece
          refine ⟨fun j _ hstr => ?_, by simp⟩
          have hjn : j < n := by omega
          have hjk : j < k := by omega
          exact hne j hjk (Option.some.inj ((hbyte j hjn).symm.trans hstr.1))
        · have hpart : n = part := by omega
          have hne' : ∀ i < n, mem.byte (src + i) ≠ some 0 := by
            intro i hi
            rw [hbyte i hi]
            exact fun heq => hne i (by omega) (Option.some.inj heq)
          have halign : (src + n) % A.pgsize = 0 := by
            refine Nat.mod_eq_zero_of_dvd ⟨src / A.pgsize + 1, ?_⟩
            have hdiv := Nat.div_add_mod src A.pgsize
            rw [Nat.mul_succ]
            omega
          have hrest := @ih (src + n) (maxn - n) A.pgsize _ ⟨cache', rfl, hinv'⟩ (by omega) (hword rfl)
            A.pgsize_pos (by rw [halign, zero_add])
          rw [memcpyUser_spec n hbyte, ok_bind, Nat.mod_eq_of_lt (hword rfl)]
          exact hrest.append (by omega) hread hne'

/-- `copy_string` at every source address. -/
lemma copyString_copied (h : MmInv A mm) (mem : Content A mm) (maxn : ℕ)
    (hsrc : src < 2 ^ A.wordBits) : Copied mem src maxn (copyString A mem.byte mm src maxn) := by
  have hpg := A.pgsize_pos
  have hmod := Nat.mod_lt src hpg
  rw [copyString]
  set part := (A.roundDown ((src + A.pgsize) % 2 ^ A.wordBits) + 2 ^ A.wordBits - src) % 2 ^ A.wordBits with hdef
  obtain hlt | hge := lt_or_ge (src + A.pgsize) (2 ^ A.wordBits)
  · have hpart : part = A.pgsize - src % A.pgsize := by
      have hle := Nat.mod_le src A.pgsize
      have hadd : A.roundDown ((src + A.pgsize) % 2 ^ A.wordBits) = src + A.pgsize - src % A.pgsize := by
        rw [Nat.mod_eq_of_lt hlt, Layout.roundDown, Nat.add_mod_right]
      have hsub : src + A.pgsize - src % A.pgsize + 2 ^ A.wordBits - src =
          A.pgsize - src % A.pgsize + 2 ^ A.wordBits := by omega
      rw [hdef, hadd, hsub, Nat.add_mod_right]
      exact Nat.mod_eq_of_lt (by omega)
    exact copyStringLoop_spec h mem (maxn + 1) ⟨mm.mmapCache, rfl, h⟩ (Nat.lt_succ_self _) hsrc (by omega) (by omega)
  · -- the source is above all user memory
    have htop := A.userTop_le
    rw [copyStringLoop, userMemCheck, if_pos]
    · refine ⟨fun n _ hstr => ?_, by simp⟩
      obtain ⟨a, ha, hcov, -⟩ := hstr.2.2 0 (Nat.zero_le n)
      have haccess := (h.inUser a ha).access
      simp only [Vma.Covers, Layout.UserAccess] at hcov haccess
      omega
    · rw [Layout.UserAccess]
      omega

end UcoreKernel.Vmm
