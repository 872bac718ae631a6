import UcoreKernel.Lib.Intervals
import UcoreKernel.Libs.RbTreeRun
import UcoreKernel.Mm.Vmm

/-!
The set of VMAs of an address space: what it looks like, how it is searched, and what inserting
and removing a VMA does to it.
-/

namespace UcoreKernel.Vmm

open Function List Rb

open Rb (RbTree Heap Shape)
open RedBlack RedBlack.ColTree
open Intervals LinkedList

variable {P : Type} {A : Layout} {K : Kmalloc} {mm mm' : Mm} {s s' : St P}
  {T : RbTree} {vmas : ℕ → Vma} {links : Heap} {l l₁ l₂ : List ℕ} {a b vma addr : ℕ}

/-! ### The invariant -/

/-- The VMAs of a list are not empty, in order, and apart. -/
def SpreadVmas (vmas : ℕ → Vma) (l : List ℕ) : Prop :=
  Spread (fun a => (vmas a).vmStart) (fun a => (vmas a).vmEnd) l

/-- The address is in the VMA. -/
def Vma.Covers (v : Vma) (x : ℕ) : Prop := v.vmStart ≤ x ∧ x < v.vmEnd

/-- A VMA does not meet `[start, stop)`. -/
def Vma.ApartFrom (v : Vma) (start stop : ℕ) : Prop := v.vmEnd ≤ start ∨ stop ≤ v.vmStart

/-- No VMA meets the range. -/
abbrev Mm.Free (mm : Mm) (start stop : ℕ) : Prop := ∀ b ∈ mm.mmapList, (mm.vmas b).ApartFrom start stop

/-- A range of whole pages in user memory. -/
structure Vma.InUser (A : Layout) (v : Vma) : Prop where
  dvdStart : A.pgsize ∣ v.vmStart
  dvdEnd : A.pgsize ∣ v.vmEnd
  access : A.UserAccess v.vmStart v.vmEnd

/-- The memory holds a red-black tree whose walk is the list. -/
def TreeOk (T : RbTree) (links : Heap) (l : List ℕ) : Prop :=
  ∃ t, Shape T links [] t ∧ t.isRed = false ∧ (∃ n, Rb t n) ∧ t.toList = l

/-- The set of VMAs of an address space is in order. -/
structure MmInv (A : Layout) (mm : Mm) : Prop where
  spread : SpreadVmas mm.vmas mm.mmapList
  inUser : ∀ a ∈ mm.mmapList, (mm.vmas a).InUser A
  owner : ∀ a ∈ mm.mmapList, (mm.vmas a).vmMm = mm.self
  block : ∀ a ∈ mm.mmapList, a ∈ mm.blocks
  count : mm.mapCount = mm.mmapList.length
  tree : ∀ T, mm.mmapTree = some T →
    TreeOk T mm.links mm.mmapList ∧ T.nil ∈ mm.blocks ∧ T.root ∈ mm.blocks
  cache : ∀ a, mm.mmapCache = some a → a ∈ mm.mmapList

/-- A VMA that is allocated and not in the set. -/
structure Spare (mm : Mm) (a : ℕ) : Prop where
  block : a ∈ mm.blocks
  notMem : a ∉ mm.mmapList
  ne : ∀ T, mm.mmapTree = some T → a ≠ T.nil ∧ a ≠ T.root

lemma MmInv.nodup (h : MmInv A mm) : mm.mmapList.Nodup := h.spread.nodup

/-- More blocks may be allocated, and the cache may point to another VMA. -/
lemma MmInv.weaken (h : MmInv A mm) {blocks : Finset ℕ} {cache : Option ℕ}
    (hblocks : mm.blocks ⊆ blocks) (hcache : ∀ a, cache = some a → a ∈ mm.mmapList) :
    MmInv A { mm with blocks := blocks, mmapCache := cache } where
  __ := h
  block := fun a ha => hblocks (h.block a ha)
  tree := fun T hT => ⟨(h.tree T hT).1, hblocks (h.tree T hT).2.1, hblocks (h.tree T hT).2.2⟩
  cache := hcache

lemma mmCreate_inv (self pgdir : ℕ) (vmas : ℕ → Vma) (links : Heap) :
    MmInv A (mmCreate self pgdir vmas links) where
  spread := spread_nil
  inUser := nofun
  owner := nofun
  block := nofun
  count := rfl
  tree := nofun
  cache := nofun

/-! ### The tree -/

lemma vmaCompare_nonpos : vmaCompare vmas a b ≤ 0 ↔ (vmas a).vmStart ≤ (vmas b).vmStart := by
  rw [vmaCompare]
  split_ifs <;> omega

lemma vmaCompare_pos : 0 < vmaCompare vmas a b ↔ (vmas b).vmStart < (vmas a).vmStart := by
  rw [vmaCompare]
  split_ifs <;> omega

lemma totalPreorder_vmaCompare (vmas : ℕ → Vma) : Rb.TotalPreorder (vmaCompare vmas) where
  flip := fun a b => by
    simp only [vmaCompare]
    split_ifs <;> omega
  trans := fun a b c hab hbc => by
    rw [vmaCompare_nonpos] at *
    exact hab.trans hbc

lemma SpreadVmas.sorted (h : SpreadVmas vmas l) : Rb.Sorted (vmaCompare vmas) l :=
  h.strict.imp fun hab => vmaCompare_nonpos.mpr hab.le

variable {fuel : ℕ}

/-- `rb_insert` of a VMA that is not in the tree. -/
lemma TreeOk.insert (h : TreeOk T links l) (hspread : SpreadVmas vmas l) (ha : a ∉ l)
    (hnil : a ≠ T.nil) (hroot : a ≠ T.root) (hfuel : l.length + 1 < fuel) :
    ∃ links' l₁ l₂, Rb.rbInsert T fuel (vmaCompare vmas) links a = some links' ∧
      TreeOk T links' (l₁ ++ a :: l₂) ∧ l = l₁ ++ l₂ ∧ (∀ b ∈ l₁, (vmas b).vmStart ≤ (vmas a).vmStart) ∧
      ∀ b ∈ l₂, (vmas a).vmStart < (vmas b).vmStart := by
  obtain ⟨t, hs, hblack, ⟨n, hrb⟩, rfl⟩ := h
  obtain ⟨links', t', l₁, l₂, hrun, hs', hblack', hrb', hold, hnew, hbefore, hafter⟩ :=
    rbInsert_spec (totalPreorder_vmaCompare vmas) hs hblack hrb hspread.sorted ha hnil hroot hfuel
  exact ⟨links', l₁, l₂, hrun, ⟨t', hs', hblack', hrb', hnew⟩, hold,
    fun b hb => vmaCompare_nonpos.mp (hbefore b hb), fun b hb => vmaCompare_pos.mp (hafter b hb)⟩

/-- `rb_node_prev`. -/
lemma TreeOk.prev (h : TreeOk T links (l₁ ++ a :: l₂))
    (hfuel : (l₁ ++ a :: l₂).length < fuel) : rbNodePrev T fuel links a = some l₁.getLast? := by
  obtain ⟨t, hs, -, -, ht⟩ := h
  exact rbNodePrev_spec hs (by rw [ht]; exact hfuel) ht

/-- `rb_delete` of a VMA of the tree. -/
lemma TreeOk.delete (h : TreeOk T links l) (ha : a ∈ l) (hfuel : l.length + 1 < fuel) :
    ∃ links', Rb.rbDelete T fuel links a = some links' ∧ TreeOk T links' (l.erase a) := by
  obtain ⟨t, hs, hblack, ⟨n, hrb⟩, rfl⟩ := h
  obtain ⟨links', t', hrun, hs', hblack', hrb', hlist⟩ := rbDelete_spec hs hblack hrb ha hfuel
  exact ⟨links', hrun, t', hs', hblack', hrb', hlist⟩

lemma TreeOk.ne (h : TreeOk T links l) (ha : a ∈ l) : a ≠ T.nil ∧ a ≠ T.root := by
  obtain ⟨t, hs, -, -, rfl⟩ := h
  exact ⟨fun hEq => hs.nil_notMem (hEq ▸ ha), hs.ne_of_mem ha root_mem⟩

/-- `rb_tree_create`. -/
lemma treeOk_create (hT : T.nil ≠ T.root) (links : Heap) : TreeOk T (Rb.rbTreeCreate T links) [] := by
  have hinv := rbTreeCreate_inv hT (fun _ _ => 0) links
  exact ⟨.leaf, hinv.shape, hinv.black, hinv.rb, rfl⟩

/-! ### `find_vma` -/

/-- The lowest VMA of a list that ends above an address. -/
def firstAbove (vmas : ℕ → Vma) (addr : ℕ) (l : List ℕ) : Option ℕ :=
  l.find? fun a => addr < (vmas a).vmEnd

lemma firstAbove_append :
    firstAbove vmas addr (l₁ ++ l₂) = (firstAbove vmas addr l₁).or (firstAbove vmas addr l₂) :=
  find?_append

/-- Where the lowest VMA above an address stands. -/
lemma firstAbove_eq_some (h : firstAbove vmas addr l = some a) : addr < (vmas a).vmEnd ∧
      ∃ l₁ l₂, l = l₁ ++ a :: l₂ ∧ ∀ b ∈ l₁, (vmas b).vmEnd ≤ addr := by
  obtain ⟨ha, l₁, l₂, hl, hbefore⟩ := find?_eq_some_iff_append.mp h
  grind

lemma firstAbove_eq_none : firstAbove vmas addr l = none ↔ ∀ b ∈ l, (vmas b).vmEnd ≤ addr := by
  simp [firstAbove]

/-- A VMA that has the address is the lowest one above it. -/
lemma SpreadVmas.firstAbove_eq (h : SpreadVmas vmas l) (ha : a ∈ l)
    (hstart : (vmas a).vmStart ≤ addr) (hend : addr < (vmas a).vmEnd) : firstAbove vmas addr l = some a := by
  obtain ⟨l₁, l₂, rfl⟩ := append_of_mem ha
  have hbefore : firstAbove vmas addr l₁ = none :=
    firstAbove_eq_none.mpr fun b hb => (h.middle.1 b hb).trans hstart
  grind [firstAbove]

lemma findVmaList_eq : findVmaList vmas addr l = firstAbove vmas addr l := by
  induction l with
  | nil => rfl
  | cons a l ih => grind [findVmaList, firstAbove]

/-- The way down the tree ends at the lowest VMA above the address, or at the last VMA above it
that it has met. -/
lemma findVmaRbLoop_spec {ctx : Ctx ℕ} {t : ColTree ℕ} (hs : Shape T links ctx t)
    (hspread : SpreadVmas vmas t.toList) (hfuel : t.toList.length < fuel) (addr : ℕ)
    (acc : Option ℕ) : findVmaRbLoop T links vmas addr fuel (toNull T (ptr T t)) acc =
      some ((firstAbove vmas addr t.toList).or acc) := by
  induction t generalizing ctx fuel acc with
  | leaf =>
    obtain _ | fuel := fuel
    · omega
    simp [toNull, ptr, findVmaRbLoop, ColTree.toList, firstAbove]
  | node red l a r ihl ihr =>
    obtain _ | fuel := fuel
    · omega
    have hnull : toNull T a = some a := hs.toNull_of_mem (by simp [ColTree.toList])
    have hn := hs.rep.1
    rw [ColTree.toList] at hspread ⊢
    have hleft := hspread.sublist (sublist_append_left l.toList (a :: r.toList))
    have hright := hspread.sublist ((sublist_cons_self a r.toList).trans (sublist_append_right l.toList _))
    have hlt : (vmas a).vmStart < (vmas a).vmEnd := hspread.lt a (by simp)
    rw [ColTree.toList, length_append, length_cons] at hfuel
    rw [ptr, hnull, findVmaRbLoop]
    by_cases hend : (vmas a).vmEnd > addr
    · rw [if_pos hend]
      by_cases hstart : (vmas a).vmStart ≤ addr
      · rw [if_pos hstart, hspread.firstAbove_eq (by simp) hstart hend, Option.some_or]
      · have hl : rbNodeLeft T links a = toNull T (ptr T l) :=
          congrArg (toNull T) hn.child
        rw [if_neg hstart, hl, ihl ((shape_fill (⟨.left, red, a, r⟩ : Frame ℕ)).mp hs) hleft
          (by omega), firstAbove_append, Option.or_assoc]
        grind [firstAbove]
    · have hr : rbNodeRight T links a = toNull T (ptr T r) :=
        congrArg (toNull T) hn.child'
      rw [if_neg hend, hr, ihr ((shape_fill (⟨.right, red, a, l⟩ : Frame ℕ)).mp hs) hright (by omega)]
      -- nothing up to `a` ends above the address
      have hbefore : firstAbove vmas addr (l.toList ++ [a]) = none := by
        refine firstAbove_eq_none.mpr fun b hb => ?_
        obtain hb | hb := mem_append.mp hb
        · have hba : (vmas b).vmEnd ≤ (vmas a).vmStart := hspread.middle.1 b hb
          omega
        · rw [mem_singleton.mp hb]
          omega
      rw [append_cons, firstAbove_append, hbefore, Option.none_or]

lemma findVmaSlow_eq (h : MmInv A mm) : findVmaSlow mm addr = .ok (firstAbove mm.vmas addr mm.mmapList) := by
  rw [findVmaSlow]
  cases hT : mm.mmapTree with
  | none => exact congrArg Except.ok findVmaList_eq
  | some T =>
    obtain ⟨⟨t, hs, -, -, ht⟩, -, -⟩ := h.tree T hT
    have hroot : rbNodeRoot T mm.links = toNull T (ptr T t) :=
      congrArg (toNull T) hs.hole_eq
    have hloop := findVmaRbLoop_spec hs (ht ▸ h.spread)
      (by rw [ht, Mm.fuel]; omega : t.toList.length < mm.fuel) addr none
    rw [Option.or_none, ht] at hloop
    show findVmaRb mm T addr = _
    rw [findVmaRb, hroot, hloop]
    rfl

/-- `find_vma`: the lowest VMA that ends above the address, through the cache, the tree or the
list. -/
lemma findVma_spec (h : MmInv A mm) (addr : ℕ) : ∃ cache, findVma mm addr =
        .ok (firstAbove mm.vmas addr mm.mmapList, { mm with mmapCache := cache }) ∧
      MmInv A { mm with mmapCache := cache } := by
  rw [findVma]
  cases hc : findVmaCache mm addr with
  | some a =>
    obtain ⟨hcache, hstart, hend⟩ :
        mm.mmapCache = some a ∧ (mm.vmas a).vmStart ≤ addr ∧ addr < (mm.vmas a).vmEnd := by
      rw [findVmaCache] at hc
      split at hc
      · grind
      · cases hc
    refine ⟨some a, ?_, h.weaken (Finset.Subset.refl _) fun b hb => ?_⟩
    · rw [h.spread.firstAbove_eq (h.cache a hcache) hstart hend]
    · exact h.cache b (hcache.trans hb)
  | none =>
    simp only [findVmaSlow_eq h, ok_bind, pure_eq_ok]
    split_ifs with hsome
    · refine ⟨_, rfl, h.weaken (Finset.Subset.refl _) fun b hb => ?_⟩
      obtain ⟨-, l₁, l₂, hl, -⟩ := firstAbove_eq_some hb
      rw [hl]
      simp
    · exact ⟨mm.mmapCache, rfl, h⟩

/-! ### `insert_vma_struct` -/

/-- The walk along the list splits it into the VMAs that do not start above `start` and the
rest. -/
lemma insertVmaList_spec (start : ℕ) (hspread : SpreadVmas vmas l) (lePrev : Option ℕ) :
    ∃ l₁ l₂, l = l₁ ++ l₂ ∧ insertVmaList vmas start l lePrev = l₁.getLast?.or lePrev ∧
      (∀ b ∈ l₁, (vmas b).vmStart ≤ start) ∧ ∀ b ∈ l₂, start < (vmas b).vmStart := by
  induction l generalizing lePrev with
  | nil => exact ⟨[], [], rfl, rfl, by simp, by simp⟩
  | cons a l ih =>
    rw [insertVmaList]
    by_cases ha : (vmas a).vmStart > start
    · refine ⟨[], a :: l, rfl, if_pos ha, by simp, fun b hb => ?_⟩
      obtain rfl | hb := mem_cons.mp hb
      · exact ha
      · exact ha.trans ((pairwise_cons.mp hspread.strict).1 b hb)
    · obtain ⟨l₁, l₂, rfl, hrun, h1, h2⟩ := ih (hspread.sublist (sublist_cons_self a l)) (some a)
      refine ⟨a :: l₁, l₂, rfl, ?_, fun b hb => ?_, h2⟩
      · grind
      · grind

/-- The place of the new VMA, from the tree or from the list. -/
lemma insertVmaPrev_spec (h : MmInv A mm) (hvma : Spare mm vma) :
    ∃ l₁ l₂ links, insertVmaPrev mm vma = .ok (l₁.getLast?, { mm with links := links }) ∧
      mm.mmapList = l₁ ++ l₂ ∧
      (∀ T, mm.mmapTree = some T → TreeOk T links (l₁ ++ vma :: l₂)) ∧
      (∀ b ∈ l₁, (mm.vmas b).vmStart ≤ (mm.vmas vma).vmStart) ∧
      ∀ b ∈ l₂, (mm.vmas vma).vmStart < (mm.vmas b).vmStart := by
  obtain hT | ⟨T, hT⟩ := Option.eq_none_or_eq_some mm.mmapTree
  · obtain ⟨l₁, l₂, hl, hrun, h1, h2⟩ := insertVmaList_spec (mm.vmas vma).vmStart h.spread none
    refine ⟨l₁, l₂, mm.links, ?_, hl, fun T hT' => (nomatch hT.symm.trans hT'), h1, h2⟩
    simp only [insertVmaPrev, hT, hrun, Option.or_none]
    rw [← hT]
  · obtain ⟨htree, -, -⟩ := h.tree T hT
    obtain ⟨links, l₁, l₂, hrun, htree', hl, h1, h2⟩ := htree.insert h.spread hvma.notMem
      (hvma.ne T hT).1 (hvma.ne T hT).2 (by rw [Mm.fuel]; omega : _ < mm.fuel)
    refine ⟨l₁, l₂, links, ?_, hl, fun _ hT' => ?_, h1, h2⟩
    · have hlen : (l₁ ++ vma :: l₂).length < mm.fuel := by grind [Mm.fuel]
      have hprev : rbNodePrev T { mm with links := links }.fuel links vma = some l₁.getLast? := htree'.prev hlen
      have hEq : insertVmaPrev mm vma = insertVmaRbPrev mm T vma := by rw [insertVmaPrev, hT]
      grind [insertVmaRbPrev, insertVmaRb, orAssertion, ok_bind, pure_eq_ok]
    · grind

lemma checkVmaOverlap_ok {prev next : Vma} (h₁ : prev.vmStart < prev.vmEnd)
    (h₂ : prev.vmEnd ≤ next.vmStart) (h₃ : next.vmStart < next.vmEnd) : checkVmaOverlap prev next = .ok () := by
  simp [checkVmaOverlap, assert, h₁, h₂, h₃]

/-- The overlap checks pass. -/
lemma insertVmaCheck_ok (h : SpreadVmas mm.vmas (l₁ ++ vma :: l₂)) :
    insertVmaCheck mm l₁.getLast? l₂.head? vma = .ok () := by
  have hvma : (mm.vmas vma).vmStart < (mm.vmas vma).vmEnd := h.lt vma (by simp)
  have hprev : (l₁.getLast?.elim (.ok ()) fun prev =>
      checkVmaOverlap (mm.vmas prev) (mm.vmas vma)) = .ok () := by
    cases hlast : l₁.getLast? with
    | none => rfl
    | some prev =>
      have hm : prev ∈ l₁ := mem_of_getLast? hlast
      exact checkVmaOverlap_ok (h.lt prev (by simp [hm])) (h.middle.1 prev hm) hvma
  have hnext : (l₂.head?.elim (.ok ()) fun next =>
      checkVmaOverlap (mm.vmas vma) (mm.vmas next)) = .ok () := by
    cases hhead : l₂.head? with
    | none => rfl
    | some next =>
      have hm : next ∈ l₂ := mem_of_head? hhead
      exact checkVmaOverlap_ok hvma (h.middle.2 next hm) (h.lt next (by simp [hm]))
  rw [insertVmaCheck, hprev, hnext]
  rfl

/-- The set with the new VMA in its place. -/
lemma MmInv.link (h : MmInv A mm) (hvma : Spare mm vma) (huser : (mm.vmas vma).InUser A)
    (hl : mm.mmapList = l₁ ++ l₂) (htree : ∀ T, mm.mmapTree = some T → TreeOk T links (l₁ ++ vma :: l₂))
    (hspread : SpreadVmas mm.vmas (l₁ ++ vma :: l₂)) :
    MmInv A ({ mm with links := links }.link l₁.getLast? vma) ∧
      ({ mm with links := links }.link l₁.getLast? vma).mmapList = l₁ ++ vma :: l₂ := by
  have hlist : listAddAfter mm.mmapList l₁.getLast? vma = l₁ ++ vma :: l₂ := by
    rw [hl]
    exact listAddAfter_getLast (hl ▸ h.nodup)
  have hmem : ∀ {b}, b ∈ listAddAfter mm.mmapList l₁.getLast? vma → b = vma ∨ (b ≠ vma ∧ b ∈ mm.mmapList) := by
    intro b hb
    by_cases hEq : b = vma
    · exact .inl hEq
    · grind
  -- the owner of the new VMA is the only field that changes
  have hvmas : ∀ b, ∃ o, update mm.vmas vma { mm.vmas vma with vmMm := mm.self } b =
      { mm.vmas b with vmMm := o } := by
    intro b
    by_cases hEq : b = vma
    · exact ⟨mm.self, by rw [hEq, update_self]⟩
    · exact ⟨(mm.vmas b).vmMm, by rw [update_of_ne hEq]⟩
  refine ⟨?_, hlist⟩
  constructor
  case spread =>
    show SpreadVmas _ (listAddAfter mm.mmapList l₁.getLast? vma)
    rw [hlist]
    refine hspread.congr fun b _ => ?_
    obtain ⟨o, ho⟩ := hvmas b
    have hstart := congrArg Vma.vmStart ho
    have hend := congrArg Vma.vmEnd ho
    exact ⟨hstart, hend⟩
  case inUser =>
    intro b hb
    obtain ⟨o, ho⟩ := hvmas b
    have hb' : (mm.vmas b).InUser A := by
      obtain rfl | ⟨-, hb⟩ := hmem hb
      · exact huser
      · exact h.inUser b hb
    show (update mm.vmas vma { mm.vmas vma with vmMm := mm.self } b).InUser A
    rw [ho]
    exact { hb' with }
  case owner =>
    intro b hb
    show (update mm.vmas vma { mm.vmas vma with vmMm := mm.self } b).vmMm = mm.self
    obtain rfl | ⟨hne, hb⟩ := hmem hb
    · rw [update_self]
    · rw [update_of_ne hne]
      exact h.owner b hb
  case block =>
    intro b hb
    obtain rfl | ⟨-, hb⟩ := hmem hb
    · exact hvma.block
    · exact h.block b hb
  case count =>
    show mm.mapCount + 1 = (listAddAfter mm.mmapList l₁.getLast? vma).length
    rw [hlist, h.count, hl]
    grind
  case tree =>
    intro T hT
    refine ⟨?_, (h.tree T hT).2⟩
    show TreeOk T links (listAddAfter mm.mmapList l₁.getLast? vma)
    rw [hlist]
    exact htree T hT
  case cache =>
    intro b hb
    show b ∈ listAddAfter mm.mmapList l₁.getLast? vma
    have := h.cache b hb
    grind

/-! #### Building the tree -/

lemma kmalloc_some (h : kmalloc K s = (some a, s')) :
    a ∉ s.mm.blocks ∧ s'.mm = { s.mm with blocks := insert a s.mm.blocks } ∧
      s'.kernel.shmems = s.kernel.shmems ∧ s'.kernel.pages = s.kernel.pages := by
  rw [kmalloc] at h
  cases hpick : K.pick s.kernel.kmallocs s.mm.blocks with
  | none => simp [hpick] at h
  | some c =>
    simp only [hpick, Prod.mk.injEq, Option.some.injEq] at h
    obtain ⟨rfl, rfl⟩ := h
    exact ⟨K.fresh hpick, rfl, rfl, rfl⟩

lemma kmalloc_none (h : kmalloc K s = (none, s')) :
    s'.mm = s.mm ∧ s'.kernel.shmems = s.kernel.shmems ∧ s'.kernel.pages = s.kernel.pages := by
  grind [kmalloc]

/-- The blocks of a failed `rb_tree_create` are given back. -/
lemma rbTreeCreate_none (h : rbTreeCreate K s = (none, s')) :
    s'.mm = s.mm ∧ s'.kernel.shmems = s.kernel.shmems ∧ s'.kernel.pages = s.kernel.pages := by
  rw [rbTreeCreate] at h
  rcases h1 : kmalloc K s with ⟨_ | tree, s1⟩
  · grind [kmalloc_none]
  obtain ⟨hfresh1, hmm1, hsh1, hp1⟩ := kmalloc_some h1
  rcases h2 : kmalloc K s1 with ⟨_ | nil, s2⟩
  · simp only [h1, h2, Prod.mk.injEq, true_and] at h
    obtain ⟨hmm2, hsh2, hp2⟩ := kmalloc_none h2
    subst h
    refine ⟨?_, hsh2.trans hsh1, hp2.trans hp1⟩
    rw [kfree, hmm2, hmm1, Finset.erase_insert hfresh1]
  obtain ⟨hfresh2, hmm2, hsh2, hp2⟩ := kmalloc_some h2
  rcases h3 : kmalloc K s2 with ⟨_ | root, s3⟩
  · simp only [h1, h2, h3, Prod.mk.injEq, true_and] at h
    obtain ⟨hmm3, hsh3, hp3⟩ := kmalloc_none h3
    subst h
    rw [hmm1] at hfresh2
    refine ⟨?_, hsh3.trans (hsh2.trans hsh1), hp3.trans (hp2.trans hp1)⟩
    simp only [kfree, hmm3, hmm2, hmm1, Finset.erase_insert hfresh2, Finset.erase_insert hfresh1]
  · simp [h1, h2, h3] at h

/-- The sentinels of a new tree are new blocks. -/
lemma rbTreeCreate_some (h : rbTreeCreate K s = (some T, s')) :
    (T.nil ≠ T.root ∧ T.nil ∉ s.mm.blocks ∧ T.root ∉ s.mm.blocks) ∧
      (∃ blocks, s.mm.blocks ⊆ blocks ∧ T.nil ∈ blocks ∧ T.root ∈ blocks ∧
        s'.mm = { s.mm with links := Rb.rbTreeCreate T s.mm.links, blocks := blocks }) ∧
      s'.kernel.shmems = s.kernel.shmems ∧ s'.kernel.pages = s.kernel.pages := by
  rw [rbTreeCreate] at h
  rcases h1 : kmalloc K s with ⟨_ | tree, s1⟩
  · simp [h1] at h
  obtain ⟨-, hmm1, hsh1, hp1⟩ := kmalloc_some h1
  rcases h2 : kmalloc K s1 with ⟨_ | nil, s2⟩
  · simp [h1, h2] at h
  obtain ⟨hfresh2, hmm2, hsh2, hp2⟩ := kmalloc_some h2
  rcases h3 : kmalloc K s2 with ⟨_ | root, s3⟩
  · simp [h1, h2, h3] at h
  obtain ⟨hfresh3, hmm3, hsh3, hp3⟩ := kmalloc_some h3
  grind

/-- The VMAs of the list go into the tree one behind the other. -/
lemma insertVmaAll_spec (mm : Mm) (done : List ℕ) (hspread : SpreadVmas mm.vmas (done ++ l))
    (htree : TreeOk T mm.links done) (hne : ∀ a ∈ l, a ≠ T.nil ∧ a ≠ T.root)
    (hlen : (done ++ l).length ≤ mm.mmapList.length) :
    ∃ links, insertVmaAll T l mm = .ok { mm with links := links } ∧ TreeOk T links (done ++ l) := by
  induction l generalizing mm done with
  | nil => exact ⟨mm.links, rfl, by rwa [append_nil]⟩
  | cons a l ih =>
    have hpair := pairwise_append.mp hspread.strict
    have ha : a ∉ done := fun hm => (hpair.2.2 a hm a (.head _)).false
    have hfuel : done.length + 1 < mm.fuel := by grind [Mm.fuel]
    obtain ⟨links, l₁, l₂, hrun, htree', rfl, -, h2⟩ := htree.insert
      (hspread.sublist (sublist_append_left done (a :: l))) ha (hne a (.head _)).1
      (hne a (.head _)).2 hfuel
    -- no VMA of the tree starts above the new one
    obtain rfl : l₂ = [] := by
      refine eq_nil_iff_forall_not_mem.mpr fun b hb => ?_
      exact absurd (hpair.2.2 b (mem_append_right _ hb) a (.head _)) (not_lt.mpr (h2 b hb).le)
    rw [append_nil] at *
    rw [append_cons] at hspread hlen ⊢
    obtain ⟨links', hrun', htree''⟩ := ih { mm with links := links } (l₁ ++ [a])
      hspread htree' (fun b hb => hne b (.tail a hb)) hlen
    refine ⟨links', ?_, htree''⟩
    grind [insertVmaAll, insertVmaRb, orAssertion, ok_bind]

/-- What adding VMAs to a set leaves alone: the address space and the rest of the kernel, and the
VMAs that stay outside. -/
structure Extends (s s' : St P) : Prop where
  self : s'.mm.self = s.mm.self
  pgdir : s'.mm.pgdir = s.mm.pgdir
  cache : s'.mm.mmapCache = s.mm.mmapCache
  shmems : s'.kernel.shmems = s.kernel.shmems
  pages : s'.kernel.pages = s.kernel.pages
  spare : ∀ b, Spare s.mm b → b ∉ s'.mm.mmapList → Spare s'.mm b

lemma Extends.trans {s'' : St P} (h : Extends s s') (h' : Extends s' s'')
    (hsub : ∀ b ∈ s'.mm.mmapList, b ∈ s''.mm.mmapList) : Extends s s'' where
  self := h'.self.trans h.self
  pgdir := h'.pgdir.trans h.pgdir
  cache := h'.cache.trans h.cache
  shmems := h'.shmems.trans h.shmems
  pages := h'.pages.trans h.pages
  spare := fun b hb hnot => h'.spare b (h.spare b hb fun hm => hnot (hsub b hm)) hnot

/-- The last part of `insert_vma_struct`. -/
lemma insertVmaBuild_spec (h : MmInv A s.mm) :
    ∃ s', insertVmaBuild K s = .ok s' ∧ MmInv A s'.mm ∧ Extends s s' ∧
      s'.mm.mmapList = s.mm.mmapList ∧ s'.mm.vmas = s.mm.vmas := by
  rw [insertVmaBuild]
  split_ifs with hbuild
  · rcases hcreate : rbTreeCreate K s with ⟨_ | T, s1⟩
    · obtain ⟨hmm, hsh, hp⟩ := rbTreeCreate_none hcreate
      refine ⟨s1, rfl, hmm ▸ h, ⟨by rw [hmm], by rw [hmm], by rw [hmm], hsh, hp, ?_⟩, by rw [hmm], by rw [hmm]⟩
      intro b hb _
      exact hmm ▸ hb
    · obtain ⟨⟨hT, hnil, hroot⟩, ⟨blocks, hsub, hnil', hroot', hmm⟩, hsh, hp⟩ :=
        rbTreeCreate_some hcreate
      obtain ⟨kernel, mm⟩ := s1
      subst hmm
      -- the sentinels are not VMAs, since they are new
      have hne : ∀ b ∈ s.mm.blocks, b ≠ T.nil ∧ b ≠ T.root := fun b hb =>
        ⟨fun hEq => hnil (hEq ▸ hb), fun hEq => hroot (hEq ▸ hb)⟩
      obtain ⟨links, hrun, htree⟩ := insertVmaAll_spec
        { s.mm with
          links := Rb.rbTreeCreate T s.mm.links, blocks := blocks, mmapTree := some T }
        [] h.spread (treeOk_create hT s.mm.links) (fun b hb => hne b (h.block b hb)) le_rfl
      refine ⟨⟨kernel, _⟩, bind_eq_ok_iff.mpr ⟨_, hrun, rfl⟩, ?_, ⟨rfl, rfl, rfl, hsh, hp, ?_⟩, rfl, rfl⟩
      · exact
          { h with
            block := fun b hb => hsub (h.block b hb)
            tree := by grind }
      · intro b hb _
        refine ⟨hsub hb.block, hb.notMem, ?_⟩
        intro T' hT'
        cases hT'
        exact hne b hb.block
  · exact ⟨s, rfl, h, ⟨rfl, rfl, rfl, rfl, rfl, fun _ hb _ => hb⟩, rfl, rfl⟩

/-- `insert_vma_struct` of a VMA that meets no other: the set has it, and nothing else changes. -/
lemma insertVmaStruct_spec (h : MmInv A s.mm) (hvma : Spare s.mm vma) (huser : (s.mm.vmas vma).InUser A)
    (hapart : s.mm.Free (s.mm.vmas vma).vmStart (s.mm.vmas vma).vmEnd) :
    ∃ s', insertVmaStruct K s vma = .ok s' ∧ MmInv A s'.mm ∧ Extends s s' ∧
      s'.mm.mmapList.Perm (vma :: s.mm.mmapList) ∧
      s'.mm.vmas = update s.mm.vmas vma { s.mm.vmas vma with vmMm := s.mm.self } := by
  obtain ⟨l₁, l₂, links, hprev, hl, htree, h1, h2⟩ := insertVmaPrev_spec h hvma
  have hspread : SpreadVmas s.mm.vmas (l₁ ++ vma :: l₂) :=
    Spread.insert (hl ▸ h.spread) huser.access.2.1 h1 h2 (hl ▸ hapart)
  obtain ⟨hinv, hlist⟩ := h.link hvma huser hl htree hspread
  obtain ⟨s', hbuild, hinv', hext, hlist', hvmas'⟩ := insertVmaBuild_spec
    (s := { s with mm := { s.mm with links := links }.link l₁.getLast? vma }) hinv
  have hnext : listNext s.mm.mmapList l₁.getLast? = l₂.head? := by
    rw [hl]
    exact listNext_getLast (hl ▸ h.nodup)
  have hperm : s'.mm.mmapList.Perm (vma :: s.mm.mmapList) := by grind
  have hlink : Extends s { s with mm := { s.mm with links := links }.link l₁.getLast? vma } :=
    ⟨rfl, rfl, rfl, rfl, rfl, fun b hb hnot => ⟨hb.block, hnot, hb.ne⟩⟩
  refine ⟨s', ?_, hinv', hlink.trans hext (by rw [hlist']; exact fun _ hb => hb), hperm, hvmas'⟩
  have hcheck : insertVmaCheck { s.mm with links := links } l₁.getLast? l₂.head? vma = .ok () :=
    insertVmaCheck_ok hspread
  simp only [insertVmaStruct, assert, if_pos huser.access.2.1, ok_bind, hprev, hnext, hcheck]
  exact hbuild

/-! ### `remove_vma_struct` -/

/-- `remove_vma_struct`: the set without the VMA, which stays allocated. -/
lemma removeVmaStruct_spec (h : MmInv A mm) (ha : a ∈ mm.mmapList) :
    ∃ mm', removeVmaStruct mm a = .ok mm' ∧ MmInv A mm' ∧ mm'.mmapList = mm.mmapList.erase a ∧
      mm'.vmas = mm.vmas ∧ mm'.self = mm.self ∧ mm'.pgdir = mm.pgdir ∧ Spare mm' a ∧
      ∀ b, Spare mm b → Spare mm' b := by
  obtain ⟨links, hrb, htree⟩ : ∃ links, removeVmaRb mm a = .ok { mm with links := links } ∧
      ∀ T, mm.mmapTree = some T → TreeOk T links (mm.mmapList.erase a) := by
    obtain hT | ⟨T, hT⟩ := Option.eq_none_or_eq_some mm.mmapTree
    · refine ⟨mm.links, ?_, fun T hT' => (nomatch hT.symm.trans hT')⟩
      simp only [removeVmaRb, hT]
      rw [← hT]
    · obtain ⟨links, hrun, htree⟩ := (h.tree T hT).1.delete ha (by rw [Mm.fuel]; omega : _ < mm.fuel)
      refine ⟨links, ?_, fun _ hT' => ?_⟩
      · have hEq : removeVmaRb mm a = (do
            let links ← orAssertion (Rb.rbDelete T mm.fuel mm.links a)
            return { mm with links := links }) := by rw [removeVmaRb, hT]
        rw [hEq, hrun]
        rfl
      · grind
  have hsub : ∀ {b}, b ∈ mm.mmapList.erase a → b ∈ mm.mmapList := mem_of_mem_erase
  have hnot : a ∉ mm.mmapList.erase a := h.nodup.not_mem_erase
  have hrun : removeVmaStruct mm a = .ok { mm with
      links := links
      mmapList := mm.mmapList.erase a
      mmapCache := if some a = mm.mmapCache then none else mm.mmapCache
      mapCount := mm.mapCount - 1 } := by
    simp only [removeVmaStruct, assert, if_pos (h.owner a ha).symm, ok_bind, hrb]
    rfl
  refine ⟨_, hrun, ?_, rfl, rfl, rfl, rfl, ⟨h.block a ha, hnot, fun T hT => ((h.tree T hT).1.ne ha)⟩,
    fun b hb => ⟨hb.block, fun hm => hb.notMem (hsub hm), hb.ne⟩⟩
  exact
    { spread := h.spread.sublist erase_sublist
      inUser := fun b hb => h.inUser b (hsub hb)
      owner := fun b hb => h.owner b (hsub hb)
      block := fun b hb => h.block b (hsub hb)
      count := by
        have hlen := length_erase_of_mem ha
        have hpos := length_pos_of_mem ha
        show mm.mapCount - 1 = (mm.mmapList.erase a).length
        rw [h.count]
        omega
      tree := fun T hT => ⟨htree T hT, (h.tree T hT).2⟩
      cache := by
        intro b hb
        split_ifs at hb with hEq
        exact (mem_erase_of_ne fun hba => hEq (hba ▸ hb).symm).mpr (h.cache b hb) }

end UcoreKernel.Vmm
