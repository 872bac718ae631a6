import UcoreKernel.Mm.UserAccess

/-!
What a page fault does to the page tables, the pages and the swap space: `do_pgfault` over the functions
of `glue-ucore/pmm.c`, `mm/shmem.c` and `mm/swap.c` that it calls, on a port with two levels of tables.

Whether an allocation succeeds is left open: the next results are a part of the state. An assertion
that fails inside `page_remove_pte` is recorded, since `page_insert` itself gives nothing back.

* `pgfault_answer`: what holds of every answer; `pgfault_unanswered`: 0 is returned, and the page is not
  there;
* `shared_fault`: the fault in a shared VMA, and `shared_fault_panics`: one on a page that has been
  swapped out.
-/

namespace UcoreKernel.Vmm

open UcoreKernel.Except (Ensures)
open Function Layout Option

/-- The pages, as far as the handler is concerned. `tables` are the page tables that there are, by
their directory and number; `allocs` are the results of the next allocations; `index` is `page->index`
of the pages with `PG_swap`, and `cached` are the pages in the hash lists; `nodes` are the nodes of the
shared objects. -/
structure Frames where
  tables : (pgdir number : ℕ) → Option (ℕ → Pte)
  ref : ℕ → ℕ
  index : ℕ → Option ℕ
  cached : List ℕ
  memMap : ℕ → ℕ
  free : List ℕ
  allocs : List (Option ℕ)
  shmemLen : ℕ → ℕ
  nodes : (shmem number : ℕ) → Option (ℕ → Pte)
  panicked : Bool

/-- The swap space: `max_swap_offset`, and whether reading an entry fails. -/
structure Swap where
  maxSwapOffset : ℕ
  readFails : ℕ → Bool

namespace Frames

/-- `SWAP_UNUSED` and `MAX_SWAP_REF`. -/
def swapUnused : ℕ := 0xFFFF

def maxSwapRef : ℕ := 0xFFFE

/-- The number of bytes that a page table is for: `PTSIZE`. -/
def span (A : Layout) : ℕ := 1024 * A.pgsize

variable (A : Layout) (D : Swap)

/-! ### `pmm.c` -/

/-- The entry for an address. -/
def pte (p : Frames) (pgdir la : ℕ) : Pte := (p.tables pgdir (la / span A)).elim .invalid (· la)

/-- The entry is written. -/
def setPte (p : Frames) (pgdir la : ℕ) (x : Pte) : Frames :=
  { p with tables := update p.tables pgdir (update (p.tables pgdir) (la / span A)
      ((p.tables pgdir (la / span A)).map fun table => update table la x)) }

/-- `alloc_page`. -/
def allocPage (p : Frames) : Option ℕ × Frames := (p.allocs.headD none, { p with allocs := p.allocs.tail })

/-- `free_page`. -/
def freePage (p : Frames) (page : ℕ) : Frames := { p with free := page :: p.free }

/-- `get_pte`, with `create`. -/
def getPte (p : Frames) (pgdir la : ℕ) : Option Frames :=
  match p.tables pgdir (la / span A) with
  | some _ => some p
  | none =>
    p.allocPage.1.map fun page => { p.allocPage.2 with
      ref := update p.ref page 1
      tables := update p.tables pgdir
        (update (p.tables pgdir) (la / span A) (some fun _ => .invalid)) }

/-- `swap_hash_find`. -/
def swapHashFind (p : Frames) (entry : ℕ) : Option ℕ := p.cached.find? fun page => p.index page = some entry

/-- `swap_offset`, where it does not panic. -/
def swapOffset (entry : ℕ) : Option ℕ :=
  if 0 < entry / 256 ∧ entry / 256 < D.maxSwapOffset then some (entry / 256) else none

/-- `swap_remove_entry`. -/
def swapRemoveEntry (p : Frames) (entry : ℕ) : Frames :=
  match swapOffset D entry with
  | none => { p with panicked := true }
  | some offset =>
    if p.memMap offset = 0 then { p with panicked := true }
    else
      let p := { p with memMap := update p.memMap offset (p.memMap offset - 1) }
      if p.memMap offset ≠ 0 then p
      else
        let unused := update p.memMap offset swapUnused
        match p.swapHashFind entry with
        | none => { p with memMap := unused }
        | some page =>
          if p.ref page ≠ 0 then p
          else { p with
            memMap := unused
            index := update p.index page none
            cached := p.cached.erase page
            free := page :: p.free }

/-- `page_remove_pte`. -/
def pageRemovePte (p : Frames) (pgdir la : ℕ) : Frames :=
  match p.pte A pgdir la with
  | .invalid => p
  | .present page _ =>
    let p := { p with ref := update p.ref page (p.ref page - 1) }
    (if p.index page = none ∧ p.ref page = 0 then p.freePage page else p).setPte A pgdir la .invalid
  | .swap entry => (p.swapRemoveEntry D entry).setPte A pgdir la .invalid

/-- `page_insert`, where there is a page table. -/
def insertAt (p : Frames) (pgdir page la : ℕ) (perm : Bool) : Frames :=
  let old := p.pte A pgdir la
  let new := { p with ref := update p.ref page (p.ref page + 1) }
  let q := match old with
    | .invalid => new
    | .present page' _ => if page' = page then p else new.pageRemovePte A D pgdir la
    | .swap _ => new.pageRemovePte A D pgdir la
  q.setPte A pgdir la (.present page perm)

/-- `page_insert`. -/
def pageInsert (p : Frames) (pgdir page la : ℕ) (perm : Bool) : Frames :=
  (p.getPte A pgdir la).elim p fun p => p.insertAt A D pgdir page la perm

/-- `pgdir_alloc_page`. -/
def pgdirAllocPage (p : Frames) (pgdir la : ℕ) (perm : Bool) : Bool × Frames :=
  match p.allocPage.1 with
  | none => (false, p.allocPage.2)
  | some page =>
    match p.allocPage.2.getPte A pgdir la with
    | none => (false, p.allocPage.2.freePage page)
    | some p => (true, p.insertAt A D pgdir page la perm)

/-! ### `shmem.c` and `swap.c` -/

/-- The end of `shmem_get_entry`, for the node with the entry. -/
def nodeEntry (p : Frames) (shmem addr : ℕ) (node : ℕ → Pte) : Pte × Frames :=
  let enter (p : Frames) (node : ℕ → Pte) : Frames :=
    { p with nodes := update p.nodes shmem (update (p.nodes shmem) (addr / span A) (some node)) }
  if node addr = .invalid then
    match p.allocPage.1 with
    | none => (.invalid, enter p.allocPage.2 node)
    | some page => (.present page false, enter { p.allocPage.2 with ref := update p.ref page (p.ref page + 1) }
          (update node addr (.present page false)))
  else (node addr, enter p node)

/-- `shmem_get_entry`, with `create`; `none` stands for the assertion. -/
def shmemGetEntry (p : Frames) (shmem addr : ℕ) : Option (Option Pte × Frames) :=
  if p.shmemLen shmem ≤ addr then none
  else
    match p.nodes shmem (A.roundDown addr / span A) with
    | some node => some (Prod.map some id (nodeEntry A p shmem (A.roundDown addr) node))
    | none =>
      -- `shmn_create`: `kmalloc`, and a page for the entries
      match p.allocPage.1, p.allocPage.2.allocPage.1 with
      | none, _ => some (none, p.allocPage.2)
      | some _, none => some (none, p.allocPage.2.allocPage.2)
      | some _, some _ =>
        some (Prod.map some id (nodeEntry A p.allocPage.2.allocPage.2 shmem (A.roundDown addr) fun _ => .invalid))

/-- `swap_duplicate`; `none` stands for the panic and the assertion. -/
def swapDuplicate (p : Frames) (entry : ℕ) : Option Frames :=
  (swapOffset D entry).bind fun offset =>
    if p.memMap offset < maxSwapRef then
      some { p with memMap := update p.memMap offset (p.memMap offset + 1) }
    else none

/-- `swap_in_page`; `none` stands for the panic, and the assertion of `swap_page_add`. -/
def swapInPage (p : Frames) (entry : ℕ) : Option (Except SwapErr ℕ × Frames) :=
  match swapOffset D entry with
  | none => none
  | some _ =>
    match p.swapHashFind entry with
    | some page => some (.ok page, p)
    | none =>
      match p.allocPage.1 with
      | none => some (.error .noMem, p.allocPage.2)
      | some page =>
        if D.readFails entry then some (.error .swapFault, p.allocPage.2.freePage page)
        else if p.index page ≠ none then none
        else some (.ok page, { p.allocPage.2 with
          index := update p.index page (some entry)
          cached := page :: p.cached })

/-- `page_ref (page) + swap_page_count (page)`. -/
def pageCount (p : Frames) (page : ℕ) : ℕ :=
  p.ref page + (p.index page).elim 0 fun entry => p.memMap (entry / 256)

end Frames

open Frames in
/-- The functions that `do_pgfault` calls; the contents of the pages are left out. -/
def frameOps (A : Layout) (D : Swap) : FaultOps Frames where
  getPte := getPte A
  pte := Frames.pte A
  setPte := Frames.setPte A
  allocPage := allocPage
  freePage := freePage
  pgdirAllocPage := Frames.pgdirAllocPage A D
  pageInsert := pageInsert A D
  shmemGetEntry := shmemGetEntry A
  swapDuplicate := swapDuplicate D
  swapInPage := swapInPage D
  pageCount := pageCount
  copyPage p _ _ := p

/-! ### What the functions keep -/

namespace Frames

variable {A : Layout} {D : Swap} {p p' : Frames} {pgdir la page entry : ℕ} {perm write : Bool} {x : Pte}

/-- Neither the tables nor a counter has changed. -/
structure Same (p p' : Frames) : Prop where
  tables : p'.tables = p.tables
  ref : p'.ref = p.ref
  memMap : p'.memMap = p.memMap

lemma swapInPage_same {r : Except SwapErr ℕ × Frames} (h : swapInPage D p entry = some r) : Same p r.2 := by
  rw [swapInPage] at h
  split at h
  · cases h
  split at h
  · cases h
    exact ⟨rfl, rfl, rfl⟩
  split at h
  · cases h
    exact ⟨rfl, rfl, rfl⟩
  · split_ifs at h
    · cases h
      exact ⟨rfl, rfl, rfl⟩
    · cases h
      exact ⟨rfl, rfl, rfl⟩

/-- There is a page table for the address. -/
def HasTable (A : Layout) (p : Frames) (pgdir la : ℕ) : Prop := p.tables pgdir (la / span A) ≠ none

lemma HasTable.getPte (h : HasTable A p pgdir la) : Frames.getPte A p pgdir la = some p := by
  obtain ⟨table, htable⟩ := ne_none_iff_exists'.mp h
  rw [Frames.getPte, htable]

lemma setPte_tables_self : (p.setPte A pgdir la x).tables pgdir (la / span A) =
    (p.tables pgdir (la / span A)).map fun table => update table la x := by
  rw [setPte]
  simp only [update_self]

section

variable (h : HasTable A p pgdir la)
include h

lemma HasTable.setPte : HasTable A (p.setPte A pgdir la x) pgdir la := by
  rw [HasTable, setPte_tables_self]
  exact fun hnone => h (map_eq_none_iff.mp hnone)

lemma HasTable.pte_setPte : (p.setPte A pgdir la x).pte A pgdir la = x := by
  obtain ⟨table, htable⟩ := ne_none_iff_exists'.mp h
  rw [pte, setPte_tables_self, htable]
  simp

lemma HasTable.of_tables (heq : p'.tables = p.tables) : HasTable A p' pgdir la := by
  rw [HasTable, heq]
  exact h

end

lemma swapRemoveEntry_tables (p : Frames) (entry : ℕ) : (p.swapRemoveEntry D entry).tables = p.tables := by
  rw [swapRemoveEntry]
  split
  · rfl
  · dsimp only
    split_ifs
    · rfl
    · rfl
    · split
      · rfl
      · split_ifs
        · rfl
        · rfl

section

variable (h : HasTable A p pgdir la)
include h

lemma HasTable.pageRemovePte : HasTable A (p.pageRemovePte A D pgdir la) pgdir la := by
  rw [Frames.pageRemovePte]
  split
  · exact h
  · refine HasTable.setPte (h.of_tables ?_)
    split_ifs
    · rfl
    · rfl
  · exact HasTable.setPte (h.of_tables (swapRemoveEntry_tables p _))

lemma HasTable.insertAt : (p.insertAt A D pgdir page la perm).pte A pgdir la = .present page perm := by
  have hnew : HasTable A { p with ref := update p.ref page (p.ref page + 1) } pgdir la := h
  rw [Frames.insertAt]
  refine HasTable.pte_setPte ?_
  split
  · exact hnew
  · split_ifs
    · exact h
    · exact hnew.pageRemovePte
  · exact hnew.pageRemovePte

/-- After `page_insert` the page is in the table. -/
lemma HasTable.pageInsert :
    (Frames.pageInsert A D p pgdir page la perm).pte A pgdir la = .present page perm := by
  rw [Frames.pageInsert, h.getPte]
  exact h.insertAt

end

/-- What an error leaves: every entry, the counters of the swap space, and the references of all pages
but one that was taken for a missing page table. -/
structure Unchanged (A : Layout) (pgdir la : ℕ) (p p' : Frames) : Prop where
  pte : ∀ d x, p'.pte A d x = p.pte A d x
  memMap : p'.memMap = p.memMap
  ref : ∀ page, p'.ref page ≠ p.ref page → p.tables pgdir (la / span A) = none ∧ p.allocs.headD none = some page

lemma Same.unchanged (h : Same p p') : Unchanged A pgdir la p p' :=
  ⟨fun d x => by rw [Frames.pte, Frames.pte, h.tables], h.memMap, fun page hne => absurd (congrFun h.ref page) hne⟩

/-- `get_pte` gives a table, without entries if it is new. -/
lemma getPte_some (h : Frames.getPte A p pgdir la = some p') : HasTable A p' pgdir la ∧ Unchanged A pgdir la p p' ∧
    (p' = p ∨ p'.pte A pgdir la = .invalid) := by
  rw [Frames.getPte] at h
  cases htable : p.tables pgdir (la / span A) with
  | some table =>
    rw [htable] at h
    cases h
    exact ⟨fun hnone => (nomatch htable.symm.trans hnone), Same.unchanged ⟨rfl, rfl, rfl⟩, .inl rfl⟩
  | none =>
    rw [htable] at h
    obtain ⟨new, halloc, rfl⟩ := map_eq_some_iff.mp h
    refine ⟨?_, ⟨fun d x => ?_, rfl, fun page hne => ⟨htable, ?_⟩⟩, .inr ?_⟩
    · simp [HasTable]
    · rw [Frames.pte, Frames.pte]
      obtain rfl | hd := eq_or_ne d pgdir
      · by_cases hx : x / span A = la / span A
        · simp [hx, htable]
        · simp [hx]
      · simp [hd]
    · by_contra hpage
      refine hne (update_of_ne (fun h : page = new => hpage ?_) _ _)
      rw [h]
      exact halloc
    · simp [Frames.pte]

/-- What a look at a shared object leaves: an entry is there, or the references stay. -/
def LooksUp (p : Frames) (r : Option Pte × Frames) : Prop :=
  r.2.tables = p.tables ∧ r.2.memMap = p.memMap ∧ (r.1 = none ∨ r.1 = some .invalid → r.2.ref = p.ref)

lemma Same.looksUp {q : Frames} (h : Same p q) (shmem addr : ℕ) (node : ℕ → Pte) :
    LooksUp p (Prod.map some id (nodeEntry A q shmem addr node)) := by
  rw [nodeEntry]
  split_ifs
  · split
    · exact ⟨h.tables, h.memMap, fun _ => h.ref⟩
    · exact ⟨h.tables, h.memMap, by simp⟩
  · exact ⟨h.tables, h.memMap, fun _ => h.ref⟩

lemma shmemGetEntry_some {shmem addr : ℕ} {r : Option Pte × Frames} (h : shmemGetEntry A p shmem addr = some r) :
    LooksUp p r := by
  rw [shmemGetEntry] at h
  split_ifs at h
  cases hfound : p.nodes shmem (A.roundDown addr / span A) with
  | some node =>
    rw [hfound] at h
    exact some.inj h ▸ Same.looksUp ⟨rfl, rfl, rfl⟩ _ _ _
  | none =>
    rw [hfound] at h
    dsimp only at h
    split at h
    any_goals exact some.inj h ▸ ⟨rfl, rfl, fun _ => rfl⟩
    exact some.inj h ▸ Same.looksUp ⟨rfl, rfl, rfl⟩ _ _ _

/-- The entry 0 is in no swap space. -/
lemma swapDuplicate_zero (D : Swap) (p : Frames) : swapDuplicate D p 0 = none := by
  simp [swapDuplicate, swapOffset]

/-- The entry lets the access pass. -/
def Grants (x : Pte) (write : Bool) : Prop := ∃ page w, x = .present page w ∧ (write = true → w = true)

/-- The answer 0 without a page: the entry was a swap entry and still is, and there was no page for the
copy of a page with other users. -/
def Unanswered (A : Layout) (pgdir la : ℕ) (p p' : Frames) : Prop :=
  p.allocs.headD none = none ∧ (∃ page, 1 < p'.pageCount page) ∧
    ∃ entry, p.pte A pgdir la = .swap entry ∧ p'.pte A pgdir la = .swap entry

/-- What holds of an answer. -/
def Answer (A : Layout) (pgdir la : ℕ) (write : Bool) (p : Frames) (r : Except FaultErr Unit × Frames) : Prop :=
  (∀ e, r.1 = .error e → Unchanged A pgdir la p r.2) ∧
    (r.1 = .ok () → Grants (r.2.pte A pgdir la) write ∨ (write = true ∧ Unanswered A pgdir la p r.2))

lemma Answer.of_error {e : FaultErr} (h : Unchanged A pgdir la p p') : Answer A pgdir la write p (.error e, p') :=
  ⟨fun _ _ => h, nofun⟩

lemma Answer.of_pte (h : p'.pte A pgdir la = .present page perm) (hperm : write = true → perm = true) :
    Answer A pgdir la write p (.ok (), p') :=
  ⟨nofun, fun _ => .inl ⟨page, perm, h, hperm⟩⟩

end Frames

/-! ### The handler -/

open Frames

variable {A : Layout} {D : Swap} {p p' : Frames} {pgdir la page code : ℕ} {perm write cow : Bool} {v : Vma}

section

variable (h : HasTable A p pgdir la)
include h

lemma faultInsert_pte (newpage : Option ℕ) :
    (faultInsert (frameOps A D) p pgdir la page newpage perm).pte A pgdir la = .present page perm := by
  cases newpage with
  | none | some => exact h.pageInsert

/-- The copy on write, after what keeps the table. -/
lemma faultCopy_answer {newpage : Option ℕ} {ret : Except FaultErr Unit}
    (hsame : Same p p') (hperm : write = true → perm = true)
    (hnone : newpage = none → cow = true → 1 < p'.pageCount page → Answer A pgdir la write p (ret, p')) :
    Answer A pgdir la write p (faultCopy (frameOps A D) p' pgdir la page newpage perm cow ret) := by
  have h' : HasTable A p' pgdir la := h.of_tables hsame.tables
  unfold faultCopy
  split_ifs with hcow
  · cases newpage with
    | none =>
      obtain ⟨hcow, hcount⟩ := Bool.and_eq_true_iff.mp hcow
      exact hnone rfl hcow (of_decide_eq_true hcount)
    | some new => exact Answer.of_pte (faultInsert_pte h' _) hperm
  · exact Answer.of_pte (faultInsert_pte h' _) hperm

/-- The fault on an entry that is in use. -/
lemma faultEntry_answer (hperm : code.testBit 1 = true → perm = true) : Ensures (fun _ => True)
      (faultEntry (frameOps A D) p pgdir v code la perm (p.pte A pgdir la))
      (Answer A pgdir la (code.testBit 1) p) := by
  unfold faultEntry
  extract_lets cow write new
  have hnew : Same p new.2 := by
    simp only [new]
    split_ifs
    · exact ⟨rfl, rfl, rfl⟩
    · exact ⟨rfl, rfl, rfl⟩
  cases hpte : p.pte A pgdir la with
  | invalid => trivial
  | present page uWrite =>
    dsimp only
    rw [assert]
    split_ifs with hassert
    · exact faultCopy_answer h hnew hperm fun _ _ _ => Answer.of_error hnew.unchanged
    · trivial
  | swap entry =>
    dsimp only
    cases hswap : (frameOps A D).swapInPage new.2 entry with
    | none => trivial
    | some r =>
      have hsame : Same p r.2 := by
        have := swapInPage_same hswap
        exact ⟨this.tables.trans hnew.tables, this.ref.trans hnew.ref, this.memMap.trans hnew.memMap⟩
      obtain ⟨e | page, p'⟩ := r
      · refine Answer.of_error (Same.unchanged ?_)
        cases new.1 with
        | none => exact hsame
        | some page => exact { hsame with }
      · rw [orPages, ok_bind]
        split_ifs with hread
        · refine Answer.of_pte (faultInsert_pte (h.of_tables hsame.tables) _) fun hwrite => ?_
          simp [write, hwrite] at hread
        · refine faultCopy_answer h hsame hperm fun hnone hcow hcount => ⟨by simp, fun _ => ?_⟩
          -- `ret` is the 0 of `swap_in_page`
          have hwrite : write = true := by simpa [hcow] using hread
          have halloc : p.allocs.headD none = none := by simpa [new, hcow, frameOps, allocPage] using hnone
          refine .inr ⟨hwrite, halloc, ⟨page, hcount⟩, entry, hpte, ?_⟩
          rw [← hpte, Frames.pte, hsame.tables]
          rfl

variable (hperm : write = true → perm = true)
include hperm

lemma faultShared_answer :
    Ensures (fun _ => True) (faultShared A (frameOps A D) p pgdir v la perm) (Answer A pgdir la write p) := by
  unfold faultShared
  cases v.shmem with
  | none => trivial
  | some shmem =>
    dsimp only
    cases hget : (frameOps A D).shmemGetEntry p shmem ((la - v.vmStart + v.shmemOff) % 2 ^ A.wordBits) with
    | none => trivial
    | some r =>
      obtain ⟨htables, hmap, href⟩ := shmemGetEntry_some hget
      obtain ⟨entry, p'⟩ := r
      rw [orPages, ok_bind]
      obtain _ | _ | ⟨page, w⟩ | e := entry
      · exact Answer.of_error (Same.unchanged ⟨htables, href (.inl rfl), hmap⟩)
      · exact Answer.of_error (Same.unchanged ⟨htables, href (.inr rfl), hmap⟩)
      · exact Answer.of_pte (h.of_tables htables).pageInsert hperm
      · rw [show (frameOps A D).swapDuplicate p' 0 = none from swapDuplicate_zero D p']
        trivial

lemma pgdirAllocPage_answer : let r := Frames.pgdirAllocPage A D p pgdir la perm
    Answer A pgdir la write p (if r.1 then .ok () else .error .noMem, r.2) := by
  have h' : HasTable A p.allocPage.2 pgdir la := h
  rw [Frames.pgdirAllocPage, h'.getPte]
  split
  · exact Answer.of_error (Same.unchanged ⟨rfl, rfl, rfl⟩)
  · exact Answer.of_pte h'.insertAt hperm

end

/-- An answer for the state with the page table is one for the state before. -/
lemma Frames.Answer.of_getPte {r : Except FaultErr Unit × Frames} (hget : Frames.getPte A p pgdir la = some p')
    (h : Answer A pgdir la write p' r) : Answer A pgdir la write p r := by
  obtain ⟨htable, hkept, hold⟩ := getPte_some hget
  obtain ⟨herr, hok⟩ := h
  refine ⟨fun e he => ?_, fun he => (hok he).imp_right fun ⟨hwrite, hun⟩ => ⟨hwrite, ?_⟩⟩
  · have hkept' := herr e he
    refine ⟨fun d x => (hkept'.pte d x).trans (hkept.pte d x), hkept'.memMap.trans hkept.memMap, fun page hne => ?_⟩
    have heq : r.2.ref page = p'.ref page := by
      by_contra hne'
      exact htable (hkept'.ref page hne').1
    exact hkept.ref page (heq ▸ hne)
  · obtain rfl | hinvalid := hold
    · exact hun
    · obtain ⟨-, -, entry, hentry, -⟩ := hun
      cases hinvalid.symm.trans hentry

/-- Each way through the handler. -/
lemma faultIn_answer (hallows : code.testBit 1 = true → v.has vmWrite = true) :
    Ensures (fun _ => True) (faultIn A (frameOps A D) p pgdir v code la)
      (Answer A pgdir la (code.testBit 1) p) := by
  unfold faultIn
  cases hget : (frameOps A D).getPte p pgdir la with
  | none => exact Answer.of_error (Same.unchanged ⟨rfl, rfl, rfl⟩)
  | some p' =>
    obtain ⟨htable, -, -⟩ := getPte_some hget
    have hentry := faultEntry_answer (D := D) (v := v) htable hallows
    refine Ensures.mono ?_ fun r hr => Answer.of_getPte hget hr
    dsimp only
    cases hpte : (frameOps A D).pte p' pgdir la with
    | invalid =>
      exact .ite (fun _ => pgdirAllocPage_answer htable hallows) fun _ =>
        faultShared_answer htable hallows
    | present | swap =>
      rw [show p'.pte A pgdir la = _ from hpte] at hentry
      exact hentry

/-- `find_vma` changes the cache only. -/
lemma findVma_pgdir {mm : Mm} {addr : ℕ} {r : Option ℕ × Mm} (h : findVma mm addr = .ok r) :
    r.2.pgdir = mm.pgdir := by
  rw [findVma] at h
  split at h
  · cases h
    rfl
  · obtain ⟨vma, -, h⟩ := bind_eq_ok_iff.mp h
    cases h
    split_ifs
    · rfl
    · rfl

lemma allows_write (h : v.allows code = true) (hwrite : code.testBit 1 = true) : v.has vmWrite = true := by
  have hbit : code / 2 % 2 = 1 := by simpa [Nat.testBit_eq_decide_div_mod_eq] using hwrite
  rw [Vma.allows] at h
  split at h
  · omega
  · cases h
  · exact h

/-- A page of memory at 0x800000, for which two address spaces have one swap entry; its page is still in
memory, and these are the next allocations. -/
def swappedFrames (allocs : List (Option ℕ)) : Frames where
  tables d _ := if d < 2 then some fun la => if la = 0x800000 then .swap 256 else .invalid else none
  ref _ := 0
  index page := if page = 5 then some 256 else none
  cached := [5]
  memMap offset := if offset = 1 then 2 else swapUnused
  free := []
  allocs := allocs
  shmemLen _ := 4096
  nodes _ _ := some fun la => if la = 0 then .swap 256 else .invalid
  panicked := false

/-- One of the address spaces. -/
def faultSpace (frames : Frames) : St Frames :=
  ⟨⟨0, fun _ => ⟨1, 4096⟩, frames⟩, mmCreate 0 0 (fun _ => ⟨0, 0, 0, 0, none, 0⟩) fun _ => ⟨false, 0, 0, 0⟩⟩

/-- It has a VMA that may be written. -/
def swappedSpace (allocs : List (Option ℕ)) : Except Stop (Except Errno ℕ × St Frames) :=
  mmMap Layout.i386 bumpKmalloc (faultSpace (swappedFrames allocs)) 0x800000 4096 (vmRead ||| vmWrite)

/-- A write there. -/
def swappedFault (allocs : List (Option ℕ)) : Except Stop (Except FaultErr Unit × St Frames) := do
  let r ← swappedSpace allocs
  doPgfault Layout.i386 (frameOps Layout.i386 ⟨1024, fun _ => false⟩) r.2 2 0x800000

/-- Where the page of an address is in the shared object of a VMA. -/
def Vma.objectAddr (A : Layout) (v : Vma) (addr : ℕ) : ℕ :=
  (A.roundDown addr - v.vmStart + v.shmemOff) % 2 ^ A.wordBits

/-- A fault through an entry that is not filled, in the VMA `a` of the object `k`, which has the entry `x`
for the page; `p` is the state with the page table. -/
structure SharedFault (A : Layout) (s : St Frames) (a k addr code : ℕ) (write : Bool) (p : Frames) (x : Pte) :
    Prop where
  inv : MmInv A s.mm
  kind : Kind write code
  mem : a ∈ s.mm.mmapList
  covers : (s.mm.vmas a).Covers addr
  admits : (s.mm.vmas a).Admits A write addr
  share : (s.mm.vmas a).share = true
  shmem : (s.mm.vmas a).shmem = some k
  table : getPte A s.kernel.pages s.mm.pgdir (A.roundDown addr) = some p
  empty : p.pte A s.mm.pgdir (A.roundDown addr) = .invalid
  inside : (s.mm.vmas a).objectAddr A addr < p.shmemLen k
  entry : ∃ node, p.nodes k (A.roundDown ((s.mm.vmas a).objectAddr A addr) / span A) = some node ∧
    node (A.roundDown ((s.mm.vmas a).objectAddr A addr)) = x

/-- The fault comes to the entry of the object. -/
lemma SharedFault.faultIn_eq {s : St Frames} {a k addr : ℕ} {x : Pte} (h : SharedFault A s a k addr code write p x)
    (hx : x ≠ .invalid) (D : Swap) : ∃ p', Same p p' ∧ (∀ e, x = .swap e →
        faultIn A (frameOps A D) s.kernel.pages s.mm.pgdir (s.mm.vmas a) code (A.roundDown addr) = .error .pages) ∧
      ∀ page w, x = .present page w →
        faultIn A (frameOps A D) s.kernel.pages s.mm.pgdir (s.mm.vmas a) code (A.roundDown addr) =
          .ok (.ok (), pageInsert A D p' s.mm.pgdir page (A.roundDown addr) ((s.mm.vmas a).has vmWrite)) := by
  obtain ⟨node, hnode, hentry⟩ := h.entry
  have hget : ∃ p', Same p p' ∧ shmemGetEntry A p k ((s.mm.vmas a).objectAddr A addr) = some (some x, p') := by
    rw [shmemGetEntry, if_neg (not_le.mpr h.inside), hnode]
    dsimp only
    rw [nodeEntry, hentry, if_neg hx]
    refine ⟨_, ?_, rfl⟩
    exact ⟨rfl, rfl, rfl⟩
  obtain ⟨p', hsame, hget⟩ := hget
  have hempty : (frameOps A D).pte p s.mm.pgdir (A.roundDown addr) = .invalid := h.empty
  have htable : (frameOps A D).getPte s.kernel.pages s.mm.pgdir (A.roundDown addr) = some p := h.table
  have hget : (frameOps A D).shmemGetEntry p k ((A.roundDown addr - (s.mm.vmas a).vmStart +
    (s.mm.vmas a).shmemOff) % 2 ^ A.wordBits) = some (some x, p') := hget
  have hzero : (frameOps A D).swapDuplicate p' 0 = none := swapDuplicate_zero D p'
  refine ⟨p', hsame, ?_, ?_⟩
  · rintro e rfl
    simp only [faultIn, htable, hempty, h.share, Bool.not_true, Bool.false_eq_true, if_false, faultShared, h.shmem,
      hget, orPages, ok_bind, hzero]
    rfl
  · rintro page w rfl
    simp only [faultIn, htable, hempty, h.share, Bool.not_true, Bool.false_eq_true, if_false, faultShared, h.shmem,
      hget, orPages, ok_bind]
    rfl

/-- **A fault on shared memory.**  If the page of the object is in memory, the fault puts this page into
the table, with one more reference, and no counter of the swap space changes. If the page has been
swapped out, the handler does not return: `swap_duplicate` is called with the entry 0 of the address space
and not with the one of the object. -/
theorem shared_fault (A : Layout) (D : Swap) (s : St Frames) (a k addr code : ℕ) (write : Bool) (p : Frames)
    (x : Pte) (h : SharedFault A s a k addr code write p x) :
    (∀ e, x = .swap e → doPgfault A (frameOps A D) s code addr = .error .pages) ∧
    ∀ page w, x = .present page w → ∃ s', doPgfault A (frameOps A D) s code addr = .ok (.ok (), s') ∧
      s'.kernel.pages.pte A s.mm.pgdir (A.roundDown addr) = .present page ((s.mm.vmas a).has vmWrite) ∧
      s'.kernel.pages.ref = update p.ref page (p.ref page + 1) ∧ s'.kernel.pages.memMap = p.memMap := by
  obtain ⟨cache, -, hcase⟩ := doPgfault_spec (frameOps A D) h.inv h.kind addr
  have hrun : doPgfault A (frameOps A D) s code addr = do
      let r ← faultIn A (frameOps A D) s.kernel.pages s.mm.pgdir (s.mm.vmas a) code (A.roundDown addr)
      return (r.1, ⟨{ s.kernel with pages := r.2 }, { s.mm with mmapCache := cache }⟩) := by
    obtain ⟨hnot, -⟩ | ⟨b, hb, hcov, -, hrun⟩ := hcase
    · exact absurd ⟨a, h.mem, h.covers, h.admits⟩ hnot
    · have hat : s.mm.At addr (· = s.mm.vmas b) := ⟨b, hb, hcov, rfl⟩
      rw [hrun, ← (Mm.at_iff_of_covers h.inv h.mem h.covers).mp hat]
  constructor
  · rintro e rfl
    obtain ⟨p', -, hfault, -⟩ := h.faultIn_eq nofun D
    rw [hrun, hfault e rfl]
    rfl
  · rintro page w rfl
    obtain ⟨p', hsame, -, hfault⟩ := h.faultIn_eq nofun D
    obtain ⟨htable, -, -⟩ := getPte_some h.table
    have htable' := htable.of_tables hsame.tables
    have hempty : p'.pte A s.mm.pgdir (A.roundDown addr) = .invalid := by
      rw [Frames.pte, hsame.tables]
      exact h.empty
    rw [hrun, hfault page w rfl]
    refine ⟨_, rfl, htable'.pageInsert, ?_, ?_⟩
    · show (pageInsert A D p' _ _ _ _).ref = _
      rw [pageInsert, htable'.getPte, elim_some, insertAt, hempty, ← hsame.ref]
      rfl
    · show (pageInsert A D p' _ _ _ _).memMap = _
      rw [pageInsert, htable'.getPte, elim_some, insertAt, hempty, ← hsame.memMap]
      rfl

/-- A shared object of one page with this entry, and an address space. -/
def sharedFrames (x : Pte) : Frames :=
  { swappedFrames [] with nodes := fun _ _ => some fun la => if la = 0 then x else .invalid }

/-- The object is mapped at 0x900000. -/
def sharedSpace (x : Pte) : Except Stop (Except Errno ℕ × St Frames) :=
  mmMapShmem Layout.i386 bumpKmalloc (faultSpace (sharedFrames x)) 0x900000 (vmRead ||| vmWrite) (some 0)

/-- A fault on a page of the object that is in memory. -/
theorem shared_fault_in_memory : ∃ r s', sharedSpace (.present 7 false) = .ok r ∧
    doPgfault Layout.i386 (frameOps Layout.i386 ⟨1024, fun _ => false⟩) r.2 0 0x900000 = .ok (.ok (), s') ∧
      s'.kernel.pages.pte Layout.i386 r.2.mm.pgdir 0x900000 = .present 7 true := by
  have hspace : ((sharedSpace (.present 7 false)).toOption.map fun r => (r.2.mm.mmapList, r.2.mm.vmas 1)) =
      some ([1], ⟨0, 0x900000, 0x901000, 19, some 0, 0⟩) := by decide +kernel
  have hpages : ((sharedSpace (.present 7 false)).toOption.map fun r =>
      ((r.2.kernel.pages.tables r.2.mm.pgdir (0x900000 / span i386)).isSome,
        r.2.kernel.pages.pte i386 r.2.mm.pgdir 0x900000, r.2.kernel.pages.shmemLen 0,
        (r.2.kernel.pages.nodes 0 0).map fun node => node 0)) =
      some (true, .invalid, 4096, some (.present 7 false)) := by decide +kernel
  obtain ⟨r, hr, hvalues⟩ := map_eq_some_iff.mp hspace
  rw [hr, map_some, some.injEq] at hpages
  simp only [Prod.mk.injEq] at hvalues hpages
  obtain ⟨hlist, hvma⟩ := hvalues
  obtain ⟨htable, hempty, hlen, hnode⟩ := hpages
  have hr := eq_ok_of_toOption hr
  have hinv : MmInv i386 r.2.mm := by
    obtain ⟨u, s, hrun, hinv, -⟩ := mmMapShmem_spec
      (s := faultSpace (sharedFrames (.present 7 false))) (mmCreate_inv _ _ _ _) 0x900000 (vmRead ||| vmWrite) (some 0)
    cases hr.symm.trans hrun
    exact hinv
  have hget : HasTable i386 r.2.kernel.pages r.2.mm.pgdir 0x900000 := isSome_iff_ne_none.mp htable
  obtain ⟨s', hrun, hpte, -, -⟩ := (shared_fault _ ⟨1024, fun _ => false⟩ r.2 1 0 0x900000 0 false r.2.kernel.pages
    (.present 7 false) ⟨hinv, rfl, by simp [hlist], by rw [hvma]; exact ⟨by decide, by decide⟩,
      by rw [hvma]; exact ⟨fun h => absurd h.1 (by decide), by decide⟩, by rw [hvma]; rfl,
      by rw [hvma], hget.getPte, hempty, by rw [hvma, hlen]; decide, by
        rw [hvma]
        exact map_eq_some_iff.mp hnode⟩).2 7 false rfl
  exact ⟨r, s', hr, hrun, by rw [hvma] at hpte; exact hpte⟩

/-- A fault on a page of the object that has been swapped out, with the entry 256: the kernel stops. -/
theorem shared_fault_panics : ∃ r, sharedSpace (.swap 256) = .ok r ∧ ∀ q,
    doPgfault Layout.i386 (frameOps Layout.i386 ⟨1024, fun _ => false⟩) r.2 0 0x900000 ≠ .ok q := by
  have hfault : ((sharedSpace (.swap 256)).toOption.map fun r =>
      (doPgfault i386 (frameOps i386 ⟨1024, fun _ => false⟩) r.2 0 0x900000).toOption.isSome) =
        some false := by decide +kernel
  obtain ⟨r, hr, hnone⟩ := exists_ok_of_map hfault
  refine ⟨r, hr, fun q hq => ?_⟩
  rw [hq] at hnone
  cases hnone

end UcoreKernel.Vmm
