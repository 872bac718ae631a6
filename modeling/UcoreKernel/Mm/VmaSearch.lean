import UcoreKernel.Mm.SharedVma

/-!
Searching the set of VMAs: `find_vma` and `get_unmapped_area`.

`find_vma` looks into the cache, then into the tree if there is one, and else along the list. The three
have different rules for when to stop; `get_unmapped_area` walks the list from the top down. Both are used
between calls that change the set, in any order.
-/

namespace UcoreKernel.Vmm

open List

variable {P : Type} {A : Layout} {ops : PageOps P} {K : Kmalloc} {mm mm' : Mm} {σ : System P} {addr : ℕ}

/-! ### Lookups between the calls -/

/-- A call of `vmm.c`, or a lookup of an address. -/
inductive Event where
  | call (op : Op)
  | findVma (mm addr : ℕ)

/-- One event. -/
def eventStep (A : Layout) (ops : PageOps P) (K : Kmalloc) (σ : System P) : Event → Except Stop (System P)
  | .call op => step A ops K σ op
  | .findVma a addr => σ.on a fun s => do
      let r ← findVma s.mm addr
      return (r.1, { s with mm := r.2 })

/-- A sequence of events. -/
def eventRun (A : Layout) (ops : PageOps P) (K : Kmalloc) (σ : System P) (events : List Event) :
    Except Stop (System P) :=
  events.foldlM (eventStep A ops K) σ

/-- One event keeps the address spaces in order. -/
lemma eventStep_ensures (hσ : SysInv A σ) (e : Event) :
    Except.Ensures Stop.Foreign (eventStep A ops K σ e) (SysInv A) := by
  cases e with
  | call op => exact step_ensures hσ op
  | findVma a addr =>
    rw [eventStep]
    refine on_ensures hσ a fun mm hmm => ?_
    obtain ⟨cache, hfind, hinv⟩ := findVma_spec (hσ a mm hmm) addr
    rw [hfind]
    exact hinv

/-- A sequence of events keeps the address spaces in order. -/
lemma eventRun_ensures (hσ : SysInv A σ) (events : List Event) :
    Except.Ensures Stop.Foreign (eventRun A ops K σ events) (SysInv A) := by
  induction events generalizing σ with
  | nil => exact hσ
  | cons e events ih =>
    rw [eventRun, foldlM_cons]
    exact (eventStep_ensures hσ e).bind fun σ' hσ' => ih hσ'

/-- The address spaces that events lead to, from none. -/
def Reached (A : Layout) (ops : PageOps P) (K : Kmalloc) (mm : Mm) : Prop :=
  ∃ kernel events σ a, eventRun A ops K ⟨kernel, fun _ => none⟩ events = .ok σ ∧ σ.mms a = some mm

lemma Reached.inv (h : Reached A ops K mm) : MmInv A mm := by
  obtain ⟨kernel, events, σ, a, hrun, hmm⟩ := h
  grind [SysInv, Except.Ensures, eventRun_ensures]

/-! ### `find_vma` -/

/-- What `find_vma` is to return: the lowest VMA that ends above the address, or nothing. -/
def IsLowest (mm : Mm) (addr : ℕ) : Option ℕ → Prop
  | none => ∀ v ∈ mm.mmapList, (mm.vmas v).vmEnd ≤ addr
  | some v => v ∈ mm.mmapList ∧ addr < (mm.vmas v).vmEnd ∧
      ∀ u ∈ mm.mmapList, addr < (mm.vmas u).vmEnd → u = v ∨ (mm.vmas v).vmEnd ≤ (mm.vmas u).vmStart

/-- The first VMA of the list above the address is the lowest one. -/
lemma MmInv.isLowest_firstAbove (h : MmInv A mm) (addr : ℕ) :
    IsLowest mm addr (firstAbove mm.vmas addr mm.mmapList) := by
  cases hfirst : firstAbove mm.vmas addr mm.mmapList with
  | none => exact firstAbove_eq_none.mp hfirst
  | some v =>
    obtain ⟨hend, l1, l2, hl, hbefore⟩ := firstAbove_eq_some hfirst
    have hspread := h.spread
    rw [hl] at hspread
    refine ⟨by simp [hl], hend, fun u hu huend => ?_⟩
    rw [hl, mem_append, mem_cons] at hu
    obtain hu | rfl | hu := hu
    · exact absurd (hbefore u hu) (not_le.mpr huend)
    · exact .inl rfl
    · exact .inr (hspread.middle.2 u hu)

/-- The cache has the lowest VMA, if it has the address. -/
lemma MmInv.findVmaCache_eq (h : MmInv A mm) {v : ℕ} (hcache : findVmaCache mm addr = some v) :
    firstAbove mm.vmas addr mm.mmapList = some v := by
  rw [findVmaCache] at hcache
  split at hcache
  · next u hu =>
      split_ifs at hcache with hin
      cases hcache
      exact h.spread.firstAbove_eq (h.cache v hu) hin.1 hin.2
  · cases hcache

/-- The way down the tree, if there is one. -/
lemma MmInv.findVmaRb_eq (h : MmInv A mm) {T : Rb.RbTree} (hT : mm.mmapTree = some T) :
    findVmaRb mm T addr = .ok (firstAbove mm.vmas addr mm.mmapList) := by
  have hslow : findVmaSlow mm addr = .ok (firstAbove mm.vmas addr mm.mmapList) := findVmaSlow_eq h
  rw [findVmaSlow, hT] at hslow
  exact hslow

/-- In every address space that calls and lookups in any order lead to, and for every address: what the
cache has for it, what the walk along the list finds and what the way down the tree finds is the same VMA,
and `find_vma` returns it; it is the lowest one that ends above the address, and there is none exactly if
no VMA ends above it. -/
theorem find_vma_paths_agree (h : Reached A ops K mm) (addr : ℕ) :
    ∃ found, IsLowest mm addr found ∧ (∀ v, findVmaCache mm addr = some v → found = some v) ∧
      findVmaList mm.vmas addr mm.mmapList = found ∧
      (∀ T, mm.mmapTree = some T → findVmaRb mm T addr = .ok found) ∧
      ∃ mm', findVma mm addr = .ok (found, mm') ∧ mm'.mmapList = mm.mmapList ∧ mm'.vmas = mm.vmas := by
  have hinv := h.inv
  obtain ⟨cache, hfind, -⟩ := findVma_spec hinv addr
  refine ⟨firstAbove mm.vmas addr mm.mmapList, hinv.isLowest_firstAbove addr,
    fun v hcache => hinv.findVmaCache_eq hcache, findVmaList_eq, fun T hT => hinv.findVmaRb_eq hT, _, hfind,
    rfl, rfl⟩

/-- Two VMAs are mapped, one is cut, and there are lookups in between. -/
def searchedEvents : List Event :=
  [.call (.mmCreate 7 0 (fun _ => ⟨0, 0, 0, 0, none, 0⟩) (fun _ => ⟨false, 0, 0, 0⟩)),
    .call (.mmMap 7 0x800000 0x4000 3), .findVma 7 0x801000, .call (.mmUnmap 7 0x801000 0x1000),
    .findVma 7 0x801000, .call (.mmMap 7 0xAFFFF000 0x1000 3)]

lemma exists_searched : ∃ mm, Reached Layout.i386 quietPages bumpKmalloc mm ∧ mm.mmapList.length = 3 := by
  have hmm : ((eventRun Layout.i386 quietPages bumpKmalloc ⟨⟨0, fun _ => ⟨0, 0⟩, ()⟩, fun _ => none⟩
      searchedEvents).toOption.bind fun σ => (σ.mms 7).map fun mm => mm.mmapList.length) = some 3 := by
    decide +kernel
  obtain ⟨σ, hσ, hmap⟩ := exists_ok_of_bind hmm
  obtain ⟨mm, hmm, hlen⟩ := Option.map_eq_some_iff.mp hmap
  exact ⟨mm, ⟨_, searchedEvents, σ, 7, hσ, hmm⟩, hlen⟩

/-- A lookup between the parts of a VMA that has been cut. -/
theorem find_vma_paths_agree_searched :
    ∃ mm, Reached Layout.i386 quietPages bumpKmalloc mm ∧ mm.mmapList.length = 3 ∧
      ∃ found, IsLowest mm 0x801000 found ∧ findVmaList mm.vmas 0x801000 mm.mmapList = found := by
  obtain ⟨mm, hreached, hlen⟩ := exists_searched
  obtain ⟨found, hlowest, -, hlist, -⟩ := find_vma_paths_agree hreached 0x801000
  exact ⟨mm, hreached, hlen, found, hlowest, hlist⟩

/-! ### `get_unmapped_area` -/

/-- There is room for `len` bytes at `start`. -/
def Room (A : Layout) (mm : Mm) (len start : ℕ) : Prop :=
  A.userBase ≤ start ∧ start + len ≤ A.userTop ∧
    ∀ v ∈ mm.mmapList, (mm.vmas v).ApartFrom start (start + len)

/-- The answer is the highest element of a set of addresses, and 0 if there is none. -/
def HighestOrZero (S : Set ℕ) (r : ℕ) : Prop := if r = 0 then S = ∅ else IsGreatest S r

/-- The walk down a list of VMAs: `start` is the highest place below those that it has passed. -/
lemma getUnmappedAreaLoop_spec (len : ℕ) (vmas : ℕ → Vma) (l : List ℕ) (start : ℕ)
    (hspread : SpreadVmas vmas l.reverse) (hbase : ∀ v ∈ l, A.userBase < (vmas v).vmEnd) :
    HighestOrZero {x | A.userBase ≤ x ∧ x ≤ start ∧ ∀ v ∈ l, (vmas v).ApartFrom x (x + len)}
      (getUnmappedAreaLoop A len (l.map vmas) start) := by
  have hpos := A.userBase_pos
  induction l generalizing start with
  | nil =>
    rw [map_nil, getUnmappedAreaLoop]
    split_ifs with hstart
    · rw [HighestOrZero, if_neg (by omega)]
      exact ⟨⟨hstart, le_rfl, nofun⟩, fun x hx => hx.2.1⟩
    · grind [HighestOrZero]
  | cons v l ih =>
    rw [reverse_cons] at hspread
    have hlt : (vmas v).vmStart < (vmas v).vmEnd := hspread.lt v (by simp)
    have hbelow : ∀ u ∈ l, (vmas u).vmEnd ≤ (vmas v).vmStart := fun u hu =>
      (pairwise_append.mp hspread.ordered).2.2 u (mem_reverse.mpr hu) v (by simp)
    have hrest := fun start => ih start (hspread.sublist (sublist_append_left _ _)) (fun u hu => hbase u (.tail v hu))
    rw [map_cons, getUnmappedAreaLoop]
    split_ifs with hfits hmeets htoo
    · -- the place is above the VMA, and so above all that follow
      have hv := hbase v (.head _)
      rw [HighestOrZero, if_neg (by omega)]
      refine ⟨⟨by omega, le_rfl, fun u hu => .inl ?_⟩, fun x hx => hx.2.1⟩
      obtain rfl | hu := mem_cons.mp hu
      · exact hfits
      · have := hbelow u hu
        omega
    · -- there is no place below the VMA
      rw [HighestOrZero, if_pos rfl]
      refine Set.eq_empty_of_forall_notMem fun x ⟨hx, hxs, happart⟩ => ?_
      obtain h | h := happart v (.head _) <;> omega
    · -- the highest place below the VMA
      grind [Vma.ApartFrom]
    · grind [Vma.ApartFrom]

/-- `get_unmapped_area`, for a set of VMAs in order. -/
lemma MmInv.getUnmappedArea_spec (h : MmInv A mm) {len : ℕ} (hlen : 0 < len) :
    HighestOrZero {start | Room A mm len start} (getUnmappedArea A mm len) := by
  rw [getUnmappedArea]
  split_ifs with hout
  · rw [HighestOrZero, if_pos rfl]
    refine Set.eq_empty_of_forall_notMem fun x hx => ?_
    have := hx.2.1
    omega
  · have hloop := getUnmappedAreaLoop_spec len mm.vmas mm.mmapList.reverse (A.userTop - len)
      (by rw [reverse_reverse]; exact h.spread)
      (fun v hv => by
        have huser := (h.inUser v (mem_reverse.mp hv)).access
        exact huser.1.trans_lt huser.2.1)
    have hset : {start | Room A mm len start} = {x | A.userBase ≤ x ∧ x ≤ A.userTop - len ∧
        ∀ v ∈ mm.mmapList.reverse, (mm.vmas v).ApartFrom x (x + len)} := by grind [Room]
    rw [hset]
    exact hloop

/-- In every address space that calls and lookups in any order lead to, and for every length: the result
of `get_unmapped_area` is the highest start of a range of that length in user memory which meets no VMA,
and it is 0 exactly if there is no such range. -/
theorem getUnmappedArea_isGreatest (h : Reached A ops K mm) {len : ℕ} (hlen : 0 < len) :
    (getUnmappedArea A mm len ≠ 0 → IsGreatest {start | Room A mm len start} (getUnmappedArea A mm len)) ∧
      (getUnmappedArea A mm len = 0 ↔ ¬∃ start, Room A mm len start) := by
  have hspec := h.inv.getUnmappedArea_spec hlen
  rw [HighestOrZero] at hspec
  split_ifs at hspec with hzero
  · refine ⟨fun hne => absurd hzero hne, iff_of_true hzero ?_⟩
    rintro ⟨start, hroom⟩
    have hmem : start ∈ {start | Room A mm len start} := hroom
    rw [hspec] at hmem
    exact hmem
  · exact ⟨fun _ => hspec, iff_of_false hzero fun hnone => hnone ⟨_, hspec.1⟩⟩

/-- One page, on a set of three VMAs of which one is at the top. -/
theorem getUnmappedArea_isGreatest_searched :
    ∃ mm, Reached Layout.i386 quietPages bumpKmalloc mm ∧ mm.mmapList.length = 3 ∧
      (getUnmappedArea Layout.i386 mm 0x1000 = 0 ↔ ¬∃ start, Room Layout.i386 mm 0x1000 start) := by
  obtain ⟨mm, hreached, hlen⟩ := exists_searched
  exact ⟨mm, hreached, hlen, (getUnmappedArea_isGreatest hreached (by decide)).2⟩

end UcoreKernel.Vmm
