import Mathlib.Tactic

/-!
`kern-ucore/arch/i386/mm/buddy_pmm.c`: the physical page allocator.

A page is named by its page number (`page2ppn`), so the pointer arithmetic of the source is
arithmetic of page numbers. A free list is the list of the pages that head its blocks, in the
order of the links; the counters and the marks on the pages are kept beside it, as in the source,
and the invariant that ties them together is proved in `Mm.Buddy`.
-/

namespace UcoreKernel.Pmm

open Function

/-- `MAX_ORDER`. -/
def maxOrder : ℕ := 10

/-- `MAX_ZONE_NUM`. -/
def maxZoneNum : ℕ := 10

/-- The fields of `struct Page` that the allocator uses. -/
structure Page where
  flags : BitVec 32
  property : ℕ
  zoneNum : ℕ
  ref : ℕ
  deriving DecidableEq, Repr

/-- `PG_reserved`. -/
def pgReserved : ℕ := 0

/-- `PG_property`. -/
def pgProperty : ℕ := 1

/-- `PageReserved`. -/
def pageReserved (page : Page) : Bool := page.flags.getLsbD pgReserved

/-- `PageProperty`. -/
def pageProperty (page : Page) : Bool := page.flags.getLsbD pgProperty

/-- `SetPageReserved`. -/
def setPageReserved (page : Page) : Page :=
  { page with flags := page.flags ||| BitVec.twoPow 32 pgReserved }

/-- `SetPageProperty`. -/
def setPageProperty (page : Page) : Page :=
  { page with flags := page.flags ||| BitVec.twoPow 32 pgProperty }

/-- `ClearPageProperty`. -/
def clearPageProperty (page : Page) : Page :=
  { page with flags := page.flags &&& ~~~BitVec.twoPow 32 pgProperty }

/-- The assertions and panics of the allocator. -/
inductive Panic where
  /-- `assert(n > 0 && zone_num < MAX_ZONE_NUM)` -/
  | zone
  /-- `assert(PageReserved(p))` -/
  | notReserved
  /-- `panic("getorder failed. %d\n", n)` -/
  | getorder
  /-- `assert(n > 0)` -/
  | noPages
  /-- `assert((page_idx & ((1 << order) - 1)) == 0)` -/
  | unaligned
  /-- `assert(!PageReserved(p) && !PageProperty(p))` -/
  | pageInUse
  /-- `assert(order <= MAX_ORDER)` -/
  | order
  /-- a loop of the model has used up its bound -/
  | loop
  deriving DecidableEq, Repr

/-- `pages`, `npage`, `free_area`, `zones` and the counter `zone_num` of `buddy_init_memmap`.
Page numbers stand for pointers into `pages`. -/
structure Buddy where
  pages : ℕ → Page
  npage : ℕ
  freeList : ℕ → List ℕ
  nrFree : ℕ → ℕ
  memBase : ℕ → ℕ
  zoneNum : ℕ

/-- The allocator after the loop of `page_init` that reserves every page, and `buddy_init`. What
the page structures held before is `pages`; there is none past `npage`. -/
def buddyInit (npage : ℕ) (pages : ℕ → Page) : Buddy where
  pages p := if p < npage then setPageReserved (pages p) else ⟨0, 0, 0, 0⟩
  npage := npage
  freeList _ := []
  nrFree _ := 0
  memBase _ := 0
  zoneNum := 0

/-- A change of one page structure. -/
def modifyPage (b : Buddy) (p : ℕ) (f : Page → Page) : Buddy :=
  { b with pages := update b.pages p (f (b.pages p)) }

/-- The statements `page->property = order; SetPageProperty(page); nr_free(order) ++;
list_add(&free_list(order), &(page->page_link))`, which put a block on its free list. -/
def putBlock (b : Buddy) (p order : ℕ) : Buddy :=
  { modifyPage b p (fun page => setPageProperty { page with property := order }) with
    nrFree := update b.nrFree order (b.nrFree order + 1)
    freeList := update b.freeList order (p :: b.freeList order) }

/-- The statements `nr_free(order) --; list_del(&(page->page_link))`; the page leaves whatever
list it is linked in. -/
def unlinkBlock (b : Buddy) (p order : ℕ) : Buddy :=
  { b with
    nrFree := update b.nrFree order (b.nrFree order - 1)
    freeList := fun k => (b.freeList k).erase p }

/-! ### `buddy_init_memmap` -/

/-- The loop over the pages of a new zone. -/
def initPages (zoneNum : ℕ) : ℕ → ℕ → Buddy → Except Panic Buddy
  | 0, _, b => .ok b
  | n + 1, p, b =>
    if pageReserved (b.pages p) then
      initPages zoneNum n (p + 1) (modifyPage b p fun _ => ⟨0, 0, zoneNum, 0⟩)
    else .error .notReserved

/-- `while (n >= order_size)`, with a bound on its number of turns. -/
def carveOrder (order : ℕ) : ℕ → ℕ → ℕ → Buddy → ℕ × ℕ × Buddy
  | 0, n, p, b => (n, p, b)
  | fuel + 1, n, p, b =>
    if 2 ^ order ≤ n then
      carveOrder order fuel (n - 2 ^ order) (p + 2 ^ order) (putBlock b p order)
    else (n, p, b)

/-- `while (n != 0)`: the blocks of the given order, then those of the orders below it. -/
def carve : ℕ → ℕ → ℕ → Buddy → Buddy
  | 0, n, p, b => if n = 0 then b else (carveOrder 0 n n p b).2.2
  | order + 1, n, p, b =>
    if n = 0 then b
    else
      let r := carveOrder (order + 1) n n p b
      carve order r.1 r.2.1 r.2.2

/-- `buddy_init_memmap`. -/
def initMemmap (base n : ℕ) (b : Buddy) : Except Panic Buddy :=
  if 0 < n ∧ b.zoneNum < maxZoneNum then do
    let b' ← initPages b.zoneNum n base b
    let b' : Buddy :=
      { b' with memBase := update b'.memBase b.zoneNum base, zoneNum := b.zoneNum + 1 }
    return carve maxOrder n base b'
  else .error .zone

/-! ### `buddy_alloc_pages` -/

/-- The loop of `getorder`, with a bound on its number of turns. -/
def getorderLoop (n : ℕ) : ℕ → ℕ → Except Panic ℕ
  | 0, _ => .error .getorder
  | fuel + 1, order => if n ≤ 2 ^ order then .ok order else getorderLoop n fuel (order + 1)

/-- `getorder`: the turns are those with `order <= MAX_ORDER`. -/
def getorder (n : ℕ) : Except Panic ℕ := getorderLoop n (maxOrder + 1) 0

/-- `while (cur_order > order)`: the upper halves go to the free lists. -/
def splitLoop (order page : ℕ) : ℕ → Buddy → Buddy
  | 0, b => b
  | cur + 1, b =>
    if order < cur + 1 then splitLoop order page cur (putBlock b (page + 2 ^ cur) cur) else b

/-- The loop of `buddy_alloc_pages_sub` over `cur_order`, with the number of turns left. -/
def allocLoop (order : ℕ) : ℕ → ℕ → Buddy → Option ℕ × Buddy
  | 0, _, b => (none, b)
  | turns + 1, cur, b =>
    match b.freeList cur with
    | [] => allocLoop order turns (cur + 1) b
    | page :: _ =>
      (some page, modifyPage (splitLoop order page cur (unlinkBlock b page cur)) page clearPageProperty)

/-- `buddy_alloc_pages_sub`. -/
def allocPagesSub (order : ℕ) (b : Buddy) : Except Panic (Option ℕ × Buddy) :=
  if order ≤ maxOrder then .ok (allocLoop order (maxOrder + 1 - order) order b)
  else .error .order

/-! ### `buddy_free_pages` -/

/-- `page_is_buddy`. -/
def pageIsBuddy (b : Buddy) (page order zoneNum : ℕ) : Bool :=
  page < b.npage && (b.pages page).zoneNum == zoneNum &&
    (!pageReserved (b.pages page) && pageProperty (b.pages page) &&
      (b.pages page).property == order)

/-- `page2idx`. -/
def page2idx (b : Buddy) (page : ℕ) : ℕ := page - b.memBase (b.pages page).zoneNum

/-- `idx2page`. -/
def idx2page (b : Buddy) (zoneNum idx : ℕ) : ℕ := b.memBase zoneNum + idx

/-- The loop of `buddy_free_pages_sub` over the pages of the block. -/
def clearPages : ℕ → ℕ → Buddy → Except Panic Buddy
  | 0, _, b => .ok b
  | n + 1, p, b =>
    if !pageReserved (b.pages p) && !pageProperty (b.pages p) then
      clearPages n (p + 1) (modifyPage b p fun page => { page with flags := 0, ref := 0 })
    else .error .pageInUse

/-- `while (order < MAX_ORDER)`, with a bound on its number of turns: the block grows by its
buddy as long as that is free. Returns the order and the index of the block. -/
def mergeLoop (zoneNum : ℕ) : ℕ → ℕ → ℕ → Buddy → ℕ × ℕ × Buddy
  | 0, order, pageIdx, b => (order, pageIdx, b)
  | fuel + 1, order, pageIdx, b =>
    if order < maxOrder then
      let buddyIdx := pageIdx ^^^ 2 ^ order
      let buddy := idx2page b zoneNum buddyIdx
      if pageIsBuddy b buddy order zoneNum then
        mergeLoop zoneNum fuel (order + 1) (pageIdx &&& buddyIdx)
          (modifyPage (unlinkBlock b buddy order) buddy clearPageProperty)
      else (order, pageIdx, b)
    else (order, pageIdx, b)

/-- `buddy_free_pages_sub`. -/
def freePagesSub (base order : ℕ) (b : Buddy) : Except Panic Buddy :=
  let pageIdx := page2idx b base
  if pageIdx &&& (2 ^ order - 1) = 0 then do
    let b' ← clearPages (2 ^ order) base b
    let zoneNum := (b'.pages base).zoneNum
    let r := mergeLoop zoneNum maxOrder order pageIdx b'
    return putBlock r.2.2 (idx2page r.2.2 zoneNum r.2.1) r.1
  else .error .unaligned

/-- The first loop of `buddy_free_pages`, with a bound on its number of turns: while the blocks
still fit, one is freed for each bit that keeps `base` from being aligned. Returns `base`, `n`
and the order that is reached. -/
def freeUp : ℕ → ℕ → ℕ → ℕ → Buddy → Except Panic (ℕ × ℕ × ℕ × Buddy)
  | 0, _, _, _, _ => .error .loop
  | fuel + 1, base, n, order, b =>
    if 2 ^ order ≤ n then
      if order ≤ maxOrder then
        if page2idx b base &&& 2 ^ order ≠ 0 then do
          let b' ← freePagesSub base order b
          freeUp fuel (base + 2 ^ order) (n - 2 ^ order) (order + 1) b'
        else freeUp fuel base n (order + 1) b
      else .error .order
    else .ok (base, n, order, b)

/-- The second loop of `buddy_free_pages`, with a bound on its number of turns: the rest goes in
blocks of decreasing order. -/
def freeDown : ℕ → ℕ → ℕ → ℕ → Buddy → Except Panic Buddy
  | 0, _, _, _, _ => .error .loop
  | fuel + 1, base, n, order, b =>
    if n = 0 then .ok b
    else if n < 2 ^ order then freeDown fuel base n (order - 1) b
    else do
      let b' ← freePagesSub base order b
      freeDown fuel (base + 2 ^ order) (n - 2 ^ order) order b'

/-- `buddy_free_pages`. -/
def freePages (base n : ℕ) (b : Buddy) : Except Panic Buddy :=
  if 0 < n then
    if n = 1 then freePagesSub base 0 b
    else do
      let r ← freeUp (maxOrder + 2) base n 0 b
      freeDown (r.2.1 + r.2.2.1 + 1) r.1 r.2.1 r.2.2.1 r.2.2.2
  else .error .noPages

/-- `buddy_alloc_pages`. -/
def allocPages (n : ℕ) (b : Buddy) : Except Panic (Option ℕ × Buddy) :=
  if 0 < n then do
    let order ← getorder n
    let r ← allocPagesSub order b
    match r.1 with
    | some page =>
      if n ≠ 2 ^ order then do
        let b' ← freePages (page + n) (2 ^ order - n) r.2
        return (some page, b')
      else return r
    | none => return r
  else .error .noPages

/-- `buddy_nr_free_pages`. -/
def nrFreePages (b : Buddy) : ℕ :=
  ((List.range (maxOrder + 1)).map fun order => b.nrFree order * 2 ^ order).sum

/-! ### The allocator and its users -/

/-- `init_memmap` on every zone of a list. -/
def initZones : List (ℕ × ℕ) → Buddy → Except Panic Buddy
  | [], b => .ok b
  | zone :: zones, b => do
      let b' ← initMemmap zone.1 zone.2 b
      initZones zones b'

/-- The allocator, with the allocation each page belongs to. Allocations are numbered. -/
structure System where
  buddy : Buddy
  owner : ℕ → Option ℕ
  allocations : ℕ

/-- A call of a user of the allocator. -/
inductive Op where
  | alloc (n : ℕ)
  | free (base n : ℕ)
  deriving DecidableEq, Repr

/-- What the users are allowed to call: `alloc_pages` for up to `2 ^ MAX_ORDER` pages, and
`free_pages` for pages in a row that all belong to one allocation. -/
def Op.Allowed (s : System) : Op → Prop
  | .alloc n => 0 < n ∧ n ≤ 2 ^ maxOrder
  | .free base n => 0 < n ∧ ∃ id, ∀ p, base ≤ p → p < base + n → s.owner p = some id

/-- One call; `alloc_pages` returns the first page or `NULL`. -/
def step (s : System) : Op → Except Panic (System × Option ℕ)
  | .alloc n => do
      let r ← allocPages n s.buddy
      match r.1 with
      | none => return ({ s with buddy := r.2 }, none)
      | some page =>
        let owner p := if page ≤ p ∧ p < page + n then some s.allocations else s.owner p
        return (⟨r.2, owner, s.allocations + 1⟩, some page)
  | .free base n => do
      let b ← freePages base n s.buddy
      let owner p := if base ≤ p ∧ p < base + n then none else s.owner p
      return ({ s with buddy := b, owner := owner }, none)

/-- A sequence of calls. -/
def run (s : System) : List Op → Except Panic System
  | [] => .ok s
  | op :: ops => do
      let r ← step s op
      run r.1 ops

/-- Every call of the sequence is allowed when it is made. -/
def AllAllowed (s : System) : List Op → Prop
  | [] => True
  | op :: ops => op.Allowed s ∧ ∀ s' r, step s op = .ok (s', r) → AllAllowed s' ops

end UcoreKernel.Pmm
