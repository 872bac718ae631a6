import UcoreKernel.Process.LoadIcode

/-!
`load_icode`: the bytes of the loadable segments.

The loops over the pages of a segment put bytes from `start` on into the page at `la`, and then `start`
and `la` go on. As long as no sum wraps around, `start` is in the page at `la` whenever there is something
left, so the bytes of a page end where those of the next one begin.
-/

namespace UcoreKernel.LoadIcode

open UcoreKernel.Except (Ensures)
open Vmm ByteBlock List

variable {A : Layout} {alloc : ℕ → Option Block} {K : Kmalloc} {m m' : Mem} {perm : Bool} {f : File}
  {seg start stop la x : ℕ} {val : ℕ → UInt8} {s s' : St Mem} {ph : ProgHdr} {bytes : List UInt8}

/-! ### Sums and pages -/

lemma add_of_lt {y : ℕ} (h : x + y < 2 ^ A.wordBits) : add A x y = x + y := Nat.mod_eq_of_lt h

lemma sub_of_le {y : ℕ} (h : y ≤ x) (hx : x < 2 ^ A.wordBits) : sub A x y = x - y := by
  rw [sub, show x + 2 ^ A.wordBits - y = x - y + 2 ^ A.wordBits by omega, Nat.add_mod_right,
    Nat.mod_eq_of_lt (by omega)]

lemma sub_add {y z : ℕ} (hz : 0 < z) (h : z ≤ x + y) (hx : x + y ≤ 2 ^ A.wordBits) :
    sub A (add A x y) z = x + y - z := by
  obtain hlt | heq := hx.lt_or_eq
  · rw [add_of_lt hlt, sub_of_le h hlt]
  · rw [add, heq, Nat.mod_self, sub, zero_add, Nat.mod_eq_of_lt (by omega)]

/-- A piece goes up to the end of the page, or to the end of the bytes. -/
lemma pieceSize_eq (hle : la ≤ start) (hlt : start ≤ la + A.pgsize) (hstop : start ≤ stop)
    (hword : la + A.pgsize < 2 ^ A.wordBits) :
    pieceSize A (start - la) (la + A.pgsize) stop = min (la + A.pgsize) stop - start := by
  have hpiece : sub A A.pgsize (start - la) = la + A.pgsize - start := by
    rw [sub_of_le (by omega) (by omega)]
    omega
  rw [pieceSize, hpiece]
  split_ifs with h
  · rw [sub_of_le h.le hword, sub_of_le (by omega) (by omega)]
    omega
  · omega

/-- The addresses of a page. -/
lemma roundDown_of_mem (hla : A.pgsize ∣ la) (hx : la ≤ x) (hx' : x < la + A.pgsize) :
    A.roundDown x = la ∧ x % A.pgsize = x - la := by
  have hmod : x % A.pgsize = x - la := by
    rw [← Nat.sub_add_cancel hx, Nat.add_mod, Nat.mod_eq_zero_of_dvd hla, add_zero, Nat.mod_mod,
      Nat.mod_eq_of_lt (by omega), Nat.add_sub_cancel]
  exact ⟨by rw [Layout.roundDown]; omega, hmod⟩

/-- The bytes after a write to a page. -/
lemma put_byte {page : Page} (hpage : m.pages la = some page) (hla : A.pgsize ∣ la) (hle : la ≤ start)
    (hend : start + bytes.length ≤ la + A.pgsize) (x : ℕ) : (m.put la (start - la) bytes).byte A x =
      if start ≤ x ∧ x < start + bytes.length then some (bytes.getD (x - start) 0) else m.byte A x := by
  rw [Mem.byte, Mem.byte, Mem.put_pages]
  by_cases hx : A.roundDown x = la
  · have hdown := A.roundDown_le x
    have hlt := A.lt_roundDown_add x
    obtain ⟨-, hmod⟩ := roundDown_of_mem hla (hx ▸ hdown) (hx ▸ hlt)
    rw [if_pos hx, hx, hpage, hmod]
    simp only [Option.map_some, write_apply]
    split_ifs with h1 h2 h2
    · rw [show x - la - (start - la) = x - start by omega]
    · omega
    · omega
    · rfl
  · rw [if_neg hx, if_neg]
    intro h
    exact hx (roundDown_of_mem hla (by omega) (by omega)).1

/-- A new page leaves the bytes of the others. -/
lemma pgdirAllocPage_byte (h : pgdirAllocPage alloc m la perm seg = some m')
    (hx : x < la ∨ la + A.pgsize ≤ x) : m'.byte A x = m.byte A x := by
  obtain ⟨data, hpages⟩ := pgdirAllocPage_pages h
  have hdown := A.roundDown_le x
  have hlt := A.lt_roundDown_add x
  rw [Mem.byte, Mem.byte, hpages, if_neg (by omega)]

lemma page_of_byte (hla : A.pgsize ∣ la) (h : m.byte A la ≠ none) : ∃ page, m.pages la = some page := by
  rw [Mem.byte, (roundDown_of_mem hla le_rfl (by have := A.pgsize_pos; omega)).1] at h
  exact Option.ne_none_iff_exists'.mp fun hnone => h (by rw [hnone, Option.map_none])

/-! ### The loops -/

/-- An error code is given back; the kernel does not stop, and there is no loop without an end. -/
def Returned (e : Fail) : Prop := ∃ e', e = .err e'

/-- The bytes for the pages are those of `val`, and the offset into `val` goes on. -/
def Gives (source : ℕ → ℕ → Except Fail (List UInt8)) (val : ℕ → UInt8) : Prop :=
  ∀ size offset, size ≤ 2 ^ 31 → Ensures Returned (source size offset) fun bytes =>
    bytes = ((List.range size).map fun i => val (offset + i)) ∧
      ∀ i, val ((offset + size) % 2 ^ 32 + i) = val (offset + size + i)

/-- Reading fails at a negative offset, so the offset does not wrap around. -/
lemma gives_read (f : File) : Gives (loadIcodeRead f) f.byte := by
  intro size offset hsize
  rw [loadIcodeRead]
  refine .ite (fun _ => ⟨_, rfl⟩) fun hread => ⟨rfl, fun i => ?_⟩
  have hoffset : offset < 2 ^ 31 := not_le.mp fun h => hread (f.fails_of_neg _ _ h)
  rw [Nat.mod_eq_of_lt (by omega)]

lemma gives_zeros : Gives zeros fun _ => 0 := by
  intro size offset _
  exact ⟨by simp, fun _ => rfl⟩

variable (A) in
/-- What a loop does: the bytes from `start` to `stop` are put, on the pages from `la` to `la'`. -/
structure Filled (val : ℕ → UInt8) (start stop la la' : ℕ) (m m' : Mem) : Prop where
  dvd : A.pgsize ∣ la'
  le : la ≤ la'
  keep : ∀ x, x < la ∨ la' ≤ x → m'.byte A x = m.byte A x
  byte : ∀ x, start ≤ x → x < stop → m'.byte A x = some (val (x - start))
  pages : start < stop → stop ≤ la' ∧ la' < stop + A.pgsize ∧ m'.byte A (la' - A.pgsize) ≠ none
  idle : start = stop → la' = la

/-- The loops: each turn takes the rest of a page, so the last one ends at `stop`. -/
lemma fillLoop_ensures {source : ℕ → ℕ → Except Fail (List UInt8)} (hsource : Gives source val)
    (hpg : A.pgsize ≤ 2 ^ 31) (fuel : ℕ) {offset : ℕ} (hfuel : stop - start < fuel) (hla : A.pgsize ∣ la)
    (hstop : stop ≤ A.userTop) (hle : start ≤ stop) (hcur : start < stop → la ≤ start ∧ start < la + A.pgsize) :
    Ensures Returned (fillLoop A alloc source perm seg stop fuel m start la offset) fun r =>
      r.2.1 = stop ∧ Filled A (fun i => val (offset + i)) start stop la r.2.2 m r.1 := by
  induction fuel generalizing m start la offset with
  | zero => omega
  | succ fuel ih =>
    rw [fillLoop]
    refine .ite (fun hlt => ?_) fun hnot => ?_
    · cases halloc : pgdirAllocPage alloc m la perm seg with
      | none => exact ⟨_, rfl⟩
      | some m1 =>
        obtain ⟨hge, hin⟩ := hcur hlt
        have htop := A.userTop_le
        have hpos := A.pgsize_pos
        have hnext : add A la A.pgsize = la + A.pgsize := add_of_lt (by omega)
        have hsize := pieceSize_eq hge hin.le hle (by omega)
        simp only [hnext, sub_of_le hge (show start < 2 ^ A.wordBits by omega), hsize]
        set size := min (la + A.pgsize) stop - start
        refine (hsource size offset (by omega)).bind fun bytes hb => ?_
        obtain ⟨hbytes, hval⟩ := hb
        rw [add_of_lt (by omega)]
        have hlen : bytes.length = size := by simp [hbytes]
        obtain ⟨data, hpages⟩ := pgdirAllocPage_pages halloc
        have hpage : m1.pages la = some ⟨data, perm, seg⟩ := by rw [hpages, if_pos rfl]
        have hput := put_byte hpage hla hge (show start + bytes.length ≤ la + A.pgsize by omega)
        rw [hlen] at hput
        refine (ih (by omega) ((Nat.dvd_add_right hla).mpr dvd_rfl) (by omega)
          fun h => by omega).mono fun r h' => ?_
        obtain ⟨hr, hfilled⟩ := h'
        refine ⟨hr, hfilled.dvd, ?_, ?_, ?_, ?_, by omega⟩
        · have := hfilled.le
          omega
        · intro x hx
          have := hfilled.le
          rw [hfilled.keep x (by omega), hput, if_neg (by omega), pgdirAllocPage_byte halloc (by omega)]
        · intro x hx hx'
          obtain hnow | hlater := lt_or_ge x (start + size)
          · rw [hfilled.keep x (by omega), hput, if_pos ⟨hx, hnow⟩, hbytes]
            simp [show x - start < size by omega]
          · rw [hfilled.byte x hlater hx', hval, show offset + size + (x - (start + size)) =
              offset + (x - start) by omega]
        · intro _
          -- either this was the last page, or the loop goes on
          obtain hlast | hmore := eq_or_lt_of_le (show start + size ≤ stop by omega)
          · rw [hfilled.idle hlast]
            refine ⟨by omega, by omega, ?_⟩
            have hfirst : m1.byte A la = some (data (la % A.pgsize)) := by
              rw [Mem.byte, (roundDown_of_mem hla le_rfl (by omega)).1, hpage, Option.map_some]
            rw [Nat.add_sub_cancel, hfilled.keep la (by omega), hput, hfirst]
            split_ifs <;> simp
          · exact hfilled.pages hmore
    · have heq : start = stop := by omega
      exact ⟨heq, hla, le_rfl, fun _ _ => rfl, by omega, fun h => absurd h hnot, fun _ => rfl⟩

/-- The rest of the last page with bytes of the file: zeros, up to its end or to `stop`. -/
lemma fillRest_ensures (hla : A.pgsize ∣ la) (hlt : start < la) (hle : start ≤ stop) (hin : la < start + A.pgsize)
    (hpg : A.pgsize ≤ la) (hstop : stop ≤ A.userTop) (hpage : m.byte A (la - A.pgsize) ≠ none) :
    Ensures Returned (fillRest A m start la stop) fun r => r.2 = min la stop ∧
      ∀ x, r.1.byte A x = if start ≤ x ∧ x < min la stop then some 0 else m.byte A x := by
  have htop := A.userTop_le
  have hdvd : A.pgsize ∣ la - A.pgsize := Nat.dvd_sub hla dvd_rfl
  obtain ⟨page, hpage⟩ := page_of_byte hdvd hpage
  have hoff : sub A (add A start A.pgsize) la = start - (la - A.pgsize) := by
    rw [sub_add (by omega) (by omega) (by omega)]
    omega
  have hsize := pieceSize_eq (by omega) (by omega) hle (show la - A.pgsize + A.pgsize < 2 ^ A.wordBits by omega)
  rw [Nat.sub_add_cancel hpg] at hsize
  have hnext : add A start (min la stop - start) = min la stop := by
    rw [add_of_lt (by omega)]
    omega
  rw [fillRest, hoff, hsize, hnext, sub_of_le hpg (by omega)]
  refine .ite (fun _ => ⟨rfl, fun x => ?_⟩) fun hnot => absurd ?_ hnot
  · have hend : start + (replicate (min la stop - start) (0 : UInt8)).length ≤
        la - A.pgsize + A.pgsize := by
      rw [length_replicate]
      omega
    have hput := put_byte hpage hdvd (by omega) hend x
    rw [length_replicate, show start + (min la stop - start) = min la stop by omega] at hput
    rw [hput]
    split_ifs with hx
    · simp [show x - start < min la stop - start by omega]
    · rfl
  · omega

/-! ### A segment -/

/-- The bytes of a segment, those of the file and the zeros behind them. -/
def Loaded (A : Layout) (f : File) (ph : ProgHdr) (m : Mem) : Prop :=
  (∀ i < ph.filesz, m.byte A (ph.va + i) = some (f.byte (ph.offset + i))) ∧
    ∀ i, ph.filesz ≤ i → i < ph.memsz → m.byte A (ph.va + i) = some 0

/-- The last page of a loop is not behind the next page boundary. -/
lemma Filled.end_le {la' e : ℕ} (h : Filled A val start stop la la' m m') (hle : start ≤ stop) (he : A.pgsize ∣ e)
    (hstop : stop ≤ e) (hla : la ≤ e) : la' ≤ e := by
  obtain hlt | heq := hle.lt_or_eq
  · obtain ⟨-, hlt', -⟩ := h.pages hlt
    by_contra hnot
    have := Nat.le_of_dvd (by omega) (Nat.dvd_sub h.dvd he)
    omega
  · rwa [h.idle heq]

/-- One segment, at every alignment of its ends. -/
lemma loadPages_ensures {e : ℕ} (hpg : A.pgsize ≤ 2 ^ 31) (hsize : ph.filesz ≤ ph.memsz) (he : A.pgsize ∣ e)
    (hend : ph.va + ph.memsz ≤ e) (htop : e ≤ A.userTop) :
    Ensures Returned (loadPages A alloc f ph perm seg m) fun m' => Loaded A f ph m' ∧
      ∀ x, x < A.roundDown ph.va ∨ e ≤ x → m'.byte A x = m.byte A x := by
  have hword := A.userTop_le
  have hpos := A.pgsize_pos
  have hdown := A.roundDown_le ph.va
  have hlt := A.lt_roundDown_add ph.va
  rw [loadPages, add_of_lt (by omega), add_of_lt (by omega)]
  refine Ensures.bind (fillLoop_ensures (gives_read f) hpg _ (by omega) (A.dvd_roundDown _) (by omega)
    (by omega) fun _ => ⟨hdown, hlt⟩) ?_
  rintro ⟨m1, start, la⟩ ⟨rfl, hfile⟩
  dsimp only at hfile ⊢
  have hla := hfile.end_le (by omega) he (by omega) (by omega)
  have hle := hfile.le
  have hbytes : ∀ i < ph.filesz, m1.byte A (ph.va + i) = some (f.byte (ph.offset + i)) := by
    intro i hi
    rw [hfile.byte _ (by omega) (by omega), Nat.add_sub_cancel_left]
  refine .ite (fun _ => ?_) fun _ => ?_
  · exact ⟨⟨hbytes, fun i hi hi' => by omega⟩, fun x hx => hfile.keep x (by omega)⟩
  -- the second loop, from a cursor behind which the page has zeros
  have hzeros : ∀ m2 next, ph.va + ph.filesz ≤ next → next ≤ ph.va + ph.memsz →
      (next < ph.va + ph.memsz → la ≤ next ∧ next < la + A.pgsize) → (next ≤ la ∨ next = ph.va + ph.filesz) →
      (∀ x, m2.byte A x = if ph.va + ph.filesz ≤ x ∧ x < next then some 0 else m1.byte A x) →
      Ensures Returned (fillLoop A alloc zeros perm seg (ph.va + ph.memsz) (2 ^ A.wordBits) m2 next la 0 >>=
        fun r => return r.1) fun m' => Loaded A f ph m' ∧
          ∀ x, x < A.roundDown ph.va ∨ e ≤ x → m'.byte A x = m.byte A x := by
    intro m2 next hge hnext hcur hfrom hm2
    refine (fillLoop_ensures gives_zeros hpg _ (by omega) hfile.dvd (by omega) hnext hcur).bind ?_
    rintro ⟨m3, stop, la'⟩ ⟨-, hzero⟩
    have hla' := hzero.end_le hnext he (by omega) hla
    refine ⟨⟨fun i hi => ?_, fun i hi hi' => ?_⟩, fun x hx => ?_⟩
    · have hin := (hfile.pages (by omega)).1
      rw [hzero.keep _ (by omega), hm2, if_neg (by omega), hbytes i hi]
    · obtain hbefore | hafter := lt_or_ge (ph.va + i) next
      · rw [hzero.keep _ (by omega), hm2, if_pos (by omega)]
      · exact hzero.byte _ hafter (by omega)
    · rw [hzero.keep x (by omega), hm2, if_neg (by omega), hfile.keep x (by omega)]
  split_ifs with hrest
  · have hnonempty : 0 < ph.filesz := by
      by_contra hzero
      have := hfile.idle (by omega)
      omega
    obtain ⟨-, hin, hpage⟩ := hfile.pages (by omega)
    refine Ensures.bind (fillRest_ensures hfile.dvd hrest (by omega) hin
      (Nat.le_of_dvd (by omega) hfile.dvd) (by omega) hpage) ?_
    rintro ⟨m2, next⟩ ⟨rfl, hm2⟩
    exact hzeros m2 _ (by omega) (by omega) (fun _ => by omega) (by omega) hm2
  · refine hzeros m1 _ le_rfl (by omega) (fun _ => ?_) (.inr rfl) fun x => by rw [if_neg (by omega)]
    obtain hzero | hpos' := ph.filesz.eq_zero_or_pos
    · have := hfile.idle (by omega)
      omega
    · have := (hfile.pages (by omega)).1
      omega

/-! ### All segments -/

/-- The segments below `n` are loaded, and in VMAs. -/
def Held (A : Layout) (f : File) (n : ℕ) (s : St Mem) : Prop :=
  ∀ j < n, ∀ ph, f.progHdr f.elf j = .ok ph → ph.load = true → ph.filesz ≤ ph.memsz ∧
    Loaded A f ph s.kernel.pages ∧ ∀ i < ph.memsz, Covered s.mm (ph.va + i)

/-- A segment whose bytes have not changed is still loaded. -/
lemma Loaded.congr (h : Loaded A f ph m) (hsize : ph.filesz ≤ ph.memsz)
    (heq : ∀ i < ph.memsz, m'.byte A (ph.va + i) = m.byte A (ph.va + i)) : Loaded A f ph m' :=
  ⟨fun i hi => (heq i (by omega)).trans (h.1 i hi), fun i hi hi' => (heq i hi').trans (h.2 i hi hi')⟩

lemma mmMap_returned (hinv : MmInv A s.mm) (addr len : ℕ) (fl : BitVec 32) :
    Ensures Returned (orFail (mmMap A K s addr len fl)) fun _ => True := by
  obtain ⟨r, s2, hrun, -⟩ := mmMap_spec hinv addr len fl
  rw [hrun]
  cases r with
  | error e => exact ⟨_, rfl⟩
  | ok a => trivial

/-- One more segment: its pages were in no VMA, so the others keep their bytes. -/
lemma loadSegment_ensures (hpg : A.pgsize ≤ 2 ^ 31) (hinv : MmInv A s.mm) (hheld : Held A f seg s)
    (hph : f.progHdr f.elf seg = .ok ph) (hsize : ph.filesz ≤ ph.memsz)
    (hfit : ph.va + ph.memsz < 2 ^ A.wordBits) :
    Ensures Returned (loadSegment A alloc K f ph perm seg s) fun s' =>
      MmInv A s'.mm ∧ Held A f (seg + 1) s' := by
  refine (mmMap_returned hinv _ _ _).bind_eq fun _ hmap _ => ?_
  obtain ⟨hinv1, hkeep, haccess, hfree, hcov⟩ := mmMap_ok hinv hmap
  have hend := Layout.le_rangeEnd hfit haccess
  have hdown := A.roundDown_le ph.va
  refine (loadPages_ensures hpg hsize (A.dvd_rangeEnd _ _) hend haccess.2.2).bind ?_
  rintro m ⟨hloaded, hrest⟩
  refine ⟨hinv1, fun j hj ph' hph' hload => ?_⟩
  obtain hlt | rfl := Nat.lt_succ_iff_lt_or_eq.mp hj
  · obtain ⟨hsize', hloaded', hcov'⟩ := hheld j hlt ph' hph' hload
    refine ⟨hsize', hloaded'.congr hsize' fun i hi => ?_, fun i hi => hcov _ (.inr (hcov' i hi))⟩
    have hout := mt (hfree (ph'.va + i)) (not_not.mpr (hcov' i hi))
    rw [← hkeep]
    exact hrest _ (by omega)
  · cases hph.symm.trans hph'
    exact ⟨hsize, hloaded, fun i hi => hcov _ (.inl ⟨by omega, by omega⟩)⟩

/-- No loadable segment wraps around. -/
def File.Fits (A : Layout) (f : File) : Prop :=
  ∀ seg < f.elf.phnum, ∀ ph, f.progHdr f.elf seg = .ok ph → ph.load = true → ph.va + ph.memsz < 2 ^ A.wordBits

lemma progHdr_returned (f : File) (elf : ElfHdr) (seg : ℕ) :
    Ensures Returned (f.progHdr elf seg) fun _ => True := by
  refine Ensures.bind (P := fun _ => True) ?_ fun _ _ => trivial
  rw [loadIcodeRead]
  exact .ite (fun _ => ⟨_, rfl⟩) fun _ => trivial

/-- The loop over the segments. -/
lemma loadLoop_ensures (hpg : A.pgsize ≤ 2 ^ 31) (hfits : f.Fits A) (left : ℕ) {brk : ℕ}
    (hn : seg + left = f.elf.phnum) (hinv : MmInv A s.mm) (hheld : Held A f seg s) :
    Ensures Returned (loadLoop A alloc K f f.elf left seg perm brk s) fun r =>
      MmInv A r.1.mm ∧ Held A f f.elf.phnum r.1 := by
  induction left generalizing seg perm brk s with
  | zero => exact ⟨hinv, hn ▸ hheld⟩
  | succ left ih =>
    rw [loadLoop]
    refine (progHdr_returned f _ _).bind_eq fun ph hph _ => ?_
    refine .ite (fun hnot => ih (by omega) hinv fun j hj ph' hph' hload => ?_) fun hload => ?_
    · obtain hlt | rfl := Nat.lt_succ_iff_lt_or_eq.mp hj
      · exact hheld j hlt ph' hph' hload
      · rw [← Except.ok.inj (hph.symm.trans hph'), hnot] at hload
        cases hload
    · refine .ite (fun _ => ⟨_, rfl⟩) fun hsize => ?_
      refine Ensures.bind (loadSegment_ensures hpg hinv hheld hph (not_lt.mp hsize)
        (hfits seg (by omega) ph hph (by simpa using hload))) fun s1 ⟨hinv1, hheld1⟩ => ?_
      exact ih (by omega) hinv1 hheld1

/-- The whole of `load_icode`: the VMA of the stack leaves the pages. -/
lemma loadIcode_ensures (hpg : A.pgsize ≤ 2 ^ 31) (hinv : MmInv A s.mm) (hfits : f.Fits A) :
    Ensures Returned (loadIcode A alloc K f s) fun r => Held A f f.elf.phnum r.1 := by
  rw [loadIcode, loadIcodeRead]
  split_ifs with hread
  · exact ⟨_, rfl⟩
  · show Ensures Returned (if f.elf.magic ≠ _ then _ else _) _
    refine .ite (fun _ => ⟨_, rfl⟩) fun _ => ?_
    refine (loadLoop_ensures hpg hfits _ (zero_add _) hinv fun j hj => absurd hj j.not_lt_zero).bind
      fun r hr => ?_
    obtain ⟨hinv1, hheld⟩ := hr
    refine (mmMap_returned hinv1 _ _ _).bind_eq fun _ hstack _ j hj ph hph hload => ?_
    obtain ⟨-, hkeep, -, -, hcov⟩ := mmMap_ok hinv1 hstack
    obtain ⟨hsize, hloaded, hcovered⟩ := hheld j hj ph hph hload
    exact ⟨hsize, hkeep ▸ hloaded, fun i hi => hcov _ (.inr (hcovered i hi))⟩

/-- A segment whose file part ends in its first page and whose memory ends in the next one. -/
def oneSegment : List ProgHdr := [⟨1, 0, 0x800FFE, 1, 5, 6⟩]

lemma oneSegment_progHdr : (elfFile oneSegment).progHdr (elfFile oneSegment).elf 0 =
    .ok ⟨1, 0, 0x800FFE, 1, 5, 6⟩ := by decide +kernel

lemma oneSegment_fits : (elfFile oneSegment).Fits Layout.i386 := by
  intro seg hseg ph hph _
  have hnum : (elfFile oneSegment).elf.phnum = 1 := by decide +kernel
  obtain rfl : seg = 0 := by omega
  rw [← Except.ok.inj (oneSegment_progHdr.symm.trans hph)]
  decide

/-- A file whose second segment wraps around, and comes back into its first page. -/
def wrapped : List ProgHdr := [⟨1, 0, 0x900000, 4, 4, 4⟩, ⟨1, 4, 0x8FF002, 0x1FFE, 0xFFFFFFFF, 4⟩]

end UcoreKernel.LoadIcode
