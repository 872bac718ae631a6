import Mathlib
import UcoreKernel.Lib.AlignedBlock
import UcoreKernel.Lib.Except
import UcoreKernel.Mm.BuddyPmm

/-!
The buddy allocator keeps a partition of the zones into used pages and maximal free blocks.

`Inv zones b used` says that the free lists of `b` hold pairwise disjoint aligned blocks that
cover exactly the pages of the zones outside `used`, that no free block has a free buddy of its
order, and that the counters and the marks on the pages agree with the lists. A block in hand
counts as used, so every loop of the source is a sequence of two moves: a block leaves its list
(`Inv.take`) or a block without a free buddy enters one (`Inv.put`).
-/

namespace UcoreKernel.Pmm

open AlignedBlock Function List Set

/-! ### Marks on pages -/

section

variable (page : Page)

@[simp] lemma pageReserved_setPageReserved : pageReserved (setPageReserved page) = true := by
  simp [pageReserved, setPageReserved, pgReserved]

@[simp] lemma pageReserved_setPageProperty : pageReserved (setPageProperty page) = pageReserved page := by
  simp [pageReserved, setPageProperty, pgReserved, pgProperty]

@[simp] lemma pageProperty_setPageProperty : pageProperty (setPageProperty page) = true := by
  simp [pageProperty, setPageProperty, pgProperty]

@[simp] lemma pageReserved_clearPageProperty : pageReserved (clearPageProperty page) = pageReserved page := by
  simp [pageReserved, clearPageProperty, pgReserved, pgProperty]

@[simp] lemma pageProperty_clearPageProperty : pageProperty (clearPageProperty page) = false := by
  simp [pageProperty, clearPageProperty, pgProperty]

@[simp] lemma pageReserved_setOrder (k : ℕ) :
    pageReserved { page with property := k } = pageReserved page := rfl

@[simp] lemma setPageProperty_property : (setPageProperty page).property = page.property := rfl

@[simp] lemma setPageProperty_zoneNum : (setPageProperty page).zoneNum = page.zoneNum := rfl

@[simp] lemma clearPageProperty_zoneNum : (clearPageProperty page).zoneNum = page.zoneNum := rfl

end

@[simp] lemma modifyPage_same (b : Buddy) (p : ℕ) (f : Page → Page) :
    (modifyPage b p f).pages p = f (b.pages p) := update_self ..

variable {p q : ℕ} {f : Page → Page}

lemma modifyPage_ne {b : Buddy} (h : q ≠ p) : (modifyPage b p f).pages q = b.pages q := update_of_ne h ..

/-- A field that the change keeps is the same on every page. -/
lemma modifyPage_proj {α : Type*} (g : Page → α) {b : Buddy} (h : g (f (b.pages p)) = g (b.pages p)) (q : ℕ) :
    g ((modifyPage b p f).pages q) = g (b.pages q) := by
  obtain rfl | hqp := eq_or_ne q p
  · rw [modifyPage_same, h]
  · rw [modifyPage_ne hqp]

lemma putBlock_pages (b : Buddy) (p k : ℕ) : (putBlock b p k).pages =
    (modifyPage b p fun page => setPageProperty { page with property := k }).pages := rfl

/-! ### The invariant -/

/-- The pages of a block. -/
def block (p k : ℕ) : Set ℕ := Set.Ico p (p + 2 ^ k)

variable {k : ℕ}

@[simp] lemma mem_block : q ∈ block p k ↔ p ≤ q ∧ q < p + 2 ^ k := Iff.rfl

lemma self_mem_block (p k : ℕ) : p ∈ block p k :=
  ⟨le_rfl, Nat.lt_add_of_pos_right (Nat.two_pow_pos k)⟩

variable {zones : List (ℕ × ℕ)} {b : Buddy} {used : Set ℕ}

/-- Page `p` lies in zone `z`; a zone is its first page and its number of pages. -/
def InZone (zones : List (ℕ × ℕ)) (z p : ℕ) : Prop :=
  ∃ zone, zones[z]? = some zone ∧ zone.1 ≤ p ∧ p < zone.1 + zone.2

/-- The block of order `k` at `p` is aligned in zone `z` and lies inside it. -/
def IsBlock (zones : List (ℕ × ℕ)) (z p k : ℕ) : Prop :=
  ∃ zone, zones[z]? = some zone ∧ zone.1 ≤ p ∧ p + 2 ^ k ≤ zone.1 + zone.2 ∧
    2 ^ k ∣ p - zone.1

/-- The first page of the buddy of the block of order `k` at `p`, in a zone that starts at
`base`. -/
def buddyOf (base p k : ℕ) : ℕ := base + ((p - base) ^^^ 2 ^ k)

variable {z : ℕ}

lemma IsBlock.inZone (h : IsBlock zones z p k) (hq : q ∈ block p k) : InZone zones z q := by
  obtain ⟨zone, hz, hlo, hhi, -⟩ := h
  rw [mem_block] at hq
  exact ⟨zone, hz, by omega, by omega⟩

variable {zone : ℕ × ℕ}

lemma buddyOf_buddyOf (hp : InZone zones z p)
    (hz : zones[z]? = some zone) : buddyOf zone.1 (buddyOf zone.1 p k) k = p := by
  obtain ⟨zone', hz', hlo, -⟩ := hp
  grind [buddyOf, Nat.xor_xor_cancel_right]

lemma buddyOf_ne (hz : zones[z]? = some zone) (hp : InZone zones z p) : buddyOf zone.1 p k ≠ p := by
  obtain ⟨zone', hz', hlo, -⟩ := hp
  cases hz.symm.trans hz'
  intro hself
  have hxor : (p - zone.1) ^^^ 2 ^ k = p - zone.1 := by
    rw [buddyOf] at hself
    omega
  have hzero : 2 ^ k = 0 := by
    simpa [← Nat.xor_assoc] using congrArg ((p - zone.1) ^^^ ·) hxor
  exact absurd hzero (Nat.two_pow_pos k).ne'

/-- The state of the allocator when the pages of `used` are in use. -/
structure Inv (zones : List (ℕ × ℕ)) (b : Buddy) (used : Set ℕ) : Prop where
  zoneNum : b.zoneNum = zones.length
  memBase : ∀ {z zone}, zones[z]? = some zone → b.memBase z = zone.1
  zonePage : ∀ {z p}, InZone zones z p →
    p < b.npage ∧ pageReserved (b.pages p) = false ∧ (b.pages p).zoneNum = z
  otherPage : ∀ {p}, p < b.npage → (∀ z, ¬InZone zones z p) → pageReserved (b.pages p) = true
  outside : ∀ {p}, b.npage ≤ p → pageReserved (b.pages p) = false
  nrFree : ∀ k, b.nrFree k = (b.freeList k).length
  nodup : ∀ k, (b.freeList k).Nodup
  free : ∀ {p k}, p ∈ b.freeList k → k ≤ maxOrder ∧ (∃ z, IsBlock zones z p k) ∧
    pageProperty (b.pages p) = true ∧ (b.pages p).property = k
  marked : ∀ {z p}, InZone zones z p → pageProperty (b.pages p) = true →
    p ∈ b.freeList (b.pages p).property
  used_iff : ∀ {z p}, InZone zones z p →
    (p ∈ used ↔ ∀ k q, q ∈ b.freeList k → p ∉ block q k)
  disjoint : ∀ {q q' k k' p}, q ∈ b.freeList k → q' ∈ b.freeList k' → p ∈ block q k →
    p ∈ block q' k' → q = q' ∧ k = k'
  maximal : ∀ {z zone p k}, p ∈ b.freeList k → k < maxOrder → zones[z]? = some zone →
    InZone zones z p → InZone zones z (buddyOf zone.1 p k) → buddyOf zone.1 p k ∉ b.freeList k

namespace Inv

variable (h : Inv zones b used)
include h

/-- A page lies in one zone at most. -/
lemma zone_unique {z' : ℕ} (hz : InZone zones z p) (hz' : InZone zones z' p) : z = z' :=
  (h.zonePage hz).2.2.symm.trans (h.zonePage hz').2.2

/-- The head of a free block is linked in one list only. -/
lemma order_unique {k' : ℕ} (hk : p ∈ b.freeList k) (hk' : p ∈ b.freeList k') : k = k' :=
  (h.disjoint hk hk' (self_mem_block p k) (self_mem_block p k')).2

/-- A used page is in no free block. -/
lemma notMem_block (hz : InZone zones z p) (hp : p ∈ used) (hq : q ∈ b.freeList k) : p ∉ block q k :=
  (h.used_iff hz).mp hp k q hq

/-- No page of a free block is used. -/
lemma notMem_used (hq : q ∈ b.freeList k) (hp : p ∈ block q k) : p ∉ used := by
  obtain ⟨-, ⟨z, hblk⟩, -⟩ := h.free hq
  exact fun hu => h.notMem_block (hblk.inZone hp) hu hq hp

/-- A used page heads no free block. -/
lemma notMem_freeList (hz : InZone zones z p) (hp : p ∈ used) (k : ℕ) : p ∉ b.freeList k :=
  fun hk => h.notMem_block hz hp hk (self_mem_block p k)

/-- A used page carries no mark. -/
lemma pageProperty_eq_false (hz : InZone zones z p) (hp : p ∈ used) : pageProperty (b.pages p) = false := by
  by_contra hne
  exact h.notMem_freeList hz hp _ (h.marked hz (Bool.not_eq_false _ ▸ hne))

/-- The pages may change where no mark that matters does. -/
lemma congr {b' : Buddy} (hnpage : b'.npage = b.npage)
    (hlist : b'.freeList = b.freeList) (hnr : b'.nrFree = b.nrFree)
    (hbase : b'.memBase = b.memBase) (hnum : b'.zoneNum = b.zoneNum)
    (hres : ∀ p, pageReserved (b'.pages p) = pageReserved (b.pages p))
    (hprop : ∀ p, pageProperty (b'.pages p) = pageProperty (b.pages p))
    (hzone : ∀ p, (b'.pages p).zoneNum = (b.pages p).zoneNum)
    (horder : ∀ p, (b'.pages p).property = (b.pages p).property) : Inv zones b' used where
  zoneNum := hnum ▸ h.zoneNum
  memBase := fun hz => by rw [hbase, h.memBase hz]
  zonePage := fun hz => by rw [hnpage, hres, hzone]; exact h.zonePage hz
  otherPage := fun hp hz => by rw [hres]; exact h.otherPage (hnpage ▸ hp) hz
  outside := fun hp => by rw [hres]; exact h.outside (hnpage ▸ hp)
  nrFree := fun k => by rw [hnr, hlist, h.nrFree k]
  nodup := fun k => hlist ▸ h.nodup k
  free := fun hp => by rw [hprop, horder]; exact h.free (hlist ▸ hp)
  marked := fun hz hp => by rw [hlist, horder]; exact h.marked hz (hprop _ ▸ hp)
  used_iff := fun hz => by rw [hlist]; exact h.used_iff hz
  disjoint := fun hq hq' => h.disjoint (hlist ▸ hq) (hlist ▸ hq')
  maximal := fun hp hk hz hin hin' => by rw [hlist]; exact h.maximal (hlist ▸ hp) hk hz hin hin'

/-- A block leaves its free list, and its pages count as used. -/
lemma take (hp : p ∈ b.freeList k) :
    Inv zones (modifyPage (unlinkBlock b p k) p clearPageProperty) (used ∪ block p k) := by
  have hmem : ∀ {q j}, q ∈ (b.freeList j).erase p ↔ q ≠ p ∧ q ∈ b.freeList j :=
    fun {q j} => (h.nodup j).mem_erase_iff
  have hres : ∀ q, pageReserved ((modifyPage (unlinkBlock b p k) p clearPageProperty).pages q) =
      pageReserved (b.pages q) := modifyPage_proj pageReserved (by simp)
  have hzone : ∀ q, ((modifyPage (unlinkBlock b p k) p clearPageProperty).pages q).zoneNum =
      (b.pages q).zoneNum := modifyPage_proj Page.zoneNum (by simp)
  exact {
    zoneNum := h.zoneNum
    memBase := h.memBase
    zonePage := fun hz => by rw [hres, hzone]; exact h.zonePage hz
    otherPage := fun hq hz => by rw [hres]; exact h.otherPage hq hz
    outside := fun hq => by rw [hres]; exact h.outside hq
    nrFree := by
      intro j
      show update b.nrFree k (b.nrFree k - 1) j = ((b.freeList j).erase p).length
      obtain rfl | hjk := eq_or_ne j k
      · rw [update_self, length_erase_of_mem hp, h.nrFree j]
      · rw [update_of_ne hjk, h.nrFree j, erase_of_not_mem fun hj => hjk (h.order_unique hj hp)]
    nodup := fun j => (h.nodup j).erase p
    free := by
      intro q j hq
      obtain ⟨hqp, hq⟩ := hmem.mp hq
      rw [modifyPage_ne hqp]
      exact h.free hq
    marked := by
      intro z q hz hq
      obtain rfl | hqp := eq_or_ne q p
      · simp at hq
      · rw [modifyPage_ne hqp] at hq ⊢
        exact hmem.mpr ⟨hqp, h.marked hz hq⟩
    used_iff := by
      intro z q hz
      -- a page is outside the remaining blocks if it was outside all of them or in this one
      constructor
      · rintro (hu | hu) j r hr
        · exact h.notMem_block hz hu (hmem.mp hr).2
        · exact fun hrq => (hmem.mp hr).1 (h.disjoint (hmem.mp hr).2 hp hrq hu).1
      · intro hall
        by_cases hq : q ∈ block p k
        · exact .inr hq
        · refine .inl ((h.used_iff hz).mpr fun j r hr hrq => ?_)
          obtain rfl | hrp := eq_or_ne r p
          · exact hq (h.order_unique hr hp ▸ hrq)
          · exact hall j r (hmem.mpr ⟨hrp, hr⟩) hrq
    disjoint := fun hq hq' => h.disjoint (hmem.mp hq).2 (hmem.mp hq').2
    maximal := fun hq hk hz hin hin' hbud =>
      h.maximal (hmem.mp hq).2 hk hz hin hin' (hmem.mp hbud).2 }

/-- A block of used pages without a free buddy enters a free list. -/
lemma put (hblk : IsBlock zones z p k) (hk : k ≤ maxOrder) (hused : block p k ⊆ used)
    (hbuddy : k < maxOrder → ∀ zone, zones[z]? = some zone →
      InZone zones z (buddyOf zone.1 p k) → buddyOf zone.1 p k ∉ b.freeList k) :
    Inv zones (putBlock b p k) (used \ block p k) := by
  have hpz : InZone zones z p := hblk.inZone (self_mem_block p k)
  have hpu : p ∈ used := hused (self_mem_block p k)
  have hnot : ∀ j, p ∉ b.freeList j := h.notMem_freeList hpz hpu
  have hmem : ∀ {q j}, q ∈ (putBlock b p k).freeList j ↔ (q = p ∧ j = k) ∨ q ∈ b.freeList j := by
    intro q j
    show q ∈ update b.freeList k (p :: b.freeList k) j ↔ _
    by_cases hjk : j = k
    · grind
    · grind
  have hpages : ∀ {q}, q ≠ p → (putBlock b p k).pages q = b.pages q :=
    fun hq => update_of_ne hq ..
  have hres : ∀ q, pageReserved ((putBlock b p k).pages q) = pageReserved (b.pages q) := by
    rw [putBlock_pages]
    exact modifyPage_proj pageReserved (by simp)
  have hzone : ∀ q, ((putBlock b p k).pages q).zoneNum = (b.pages q).zoneNum := by
    rw [putBlock_pages]
    exact modifyPage_proj Page.zoneNum (by simp)
  have hmark : pageProperty ((putBlock b p k).pages p) = true := by simp [putBlock]
  have horder : ((putBlock b p k).pages p).property = k := by simp [putBlock]
  -- the new block meets no other
  have hapart : ∀ {q j r}, q ∈ b.freeList j → r ∈ block q j → r ∉ block p k :=
    fun hq hr hrp => h.notMem_used hq hr (hused hrp)
  exact {
    zoneNum := h.zoneNum
    memBase := h.memBase
    zonePage := fun hz => by rw [hres, hzone]; exact h.zonePage hz
    otherPage := fun hq hz => by rw [hres]; exact h.otherPage hq hz
    outside := fun hq => by rw [hres]; exact h.outside hq
    nrFree := by
      intro j
      show update b.nrFree k (b.nrFree k + 1) j = (update b.freeList k (p :: b.freeList k) j).length
      obtain rfl | hjk := eq_or_ne j k
      · rw [update_self, update_self, length_cons, h.nrFree j]
      · rw [update_of_ne hjk, update_of_ne hjk, h.nrFree j]
    nodup := by
      intro j
      show (update b.freeList k (p :: b.freeList k) j).Nodup
      obtain rfl | hjk := eq_or_ne j k
      · rw [update_self]
        exact nodup_cons.mpr ⟨hnot j, h.nodup j⟩
      · rw [update_of_ne hjk]
        exact h.nodup j
    free := by
      intro q j hq
      obtain ⟨rfl, rfl⟩ | hq := hmem.mp hq
      · exact ⟨hk, ⟨z, hblk⟩, hmark, horder⟩
      · rw [hpages fun hqp => hnot j (hqp ▸ hq)]
        exact h.free hq
    marked := by
      intro z' q hz hq
      obtain rfl | hqp := eq_or_ne q p
      · exact hmem.mpr (.inl ⟨rfl, horder⟩)
      · rw [hpages hqp] at hq ⊢
        exact hmem.mpr (.inr (h.marked hz hq))
    used_iff := by
      intro z' q hz
      rw [mem_sdiff, h.used_iff hz]
      refine ⟨fun hq j r hr => ?_, fun hq => ⟨fun j r hr => ?_, ?_⟩⟩
      · grind
      · exact hq j r (hmem.mpr (.inr hr))
      · exact hq k p (hmem.mpr (.inl ⟨rfl, rfl⟩))
    disjoint := by
      intro q q' j j' r hq hq' hr hr'
      obtain ⟨rfl, rfl⟩ | hold := hmem.mp hq
      · obtain ⟨rfl, rfl⟩ | hold' := hmem.mp hq'
        · exact ⟨rfl, rfl⟩
        · exact absurd hr (hapart hold' hr')
      · obtain ⟨rfl, rfl⟩ | hold' := hmem.mp hq'
        · exact absurd hr' (hapart hold hr)
        · exact h.disjoint hold hold' hr hr'
    maximal := by
      intro z' zone q j hq hj hz hin hin' hbud
      obtain ⟨rfl, rfl⟩ | hold := hmem.mp hq
      · have hzz : z' = z := h.zone_unique hin hpz
        subst hzz
        obtain ⟨hself, -⟩ | hbud := hmem.mp hbud
        · exact buddyOf_ne hz hin hself
        · exact hbuddy hj zone hz hin' hbud
      · obtain ⟨hself, rfl⟩ | hbud := hmem.mp hbud
        · -- the buddy of an old block is the new one, so the new one has a free buddy
          have hback : buddyOf zone.1 p j = q := by rw [← hself, buddyOf_buddyOf hin hz]
          have hzz : z' = z := h.zone_unique (hself ▸ hin') hpz
          grind
        · exact h.maximal hold hj hz hin hin' hbud }

end Inv

/-! ### Freeing a block -/

/-- `page_is_buddy` finds out whether a page of the zone heads a free block of the order. -/
lemma pageIsBuddy_iff (h : Inv zones b used) (q k z : ℕ) :
    pageIsBuddy b q k z = true ↔ InZone zones z q ∧ q ∈ b.freeList k := by
  simp only [pageIsBuddy, Bool.and_eq_true, decide_eq_true_eq, beq_iff_eq, Bool.not_eq_true']
  constructor
  · rintro ⟨⟨hnp, hzn⟩, ⟨hres, hprop⟩, hord⟩
    -- a page that is not reserved belongs to a zone, and its number is the one recorded
    obtain ⟨z', hz'⟩ : ∃ z', InZone zones z' q := by
      by_contra hnone
      rw [not_exists] at hnone
      rw [h.otherPage hnp hnone] at hres
      cases hres
    have hzz : z' = z := (h.zonePage hz').2.2.symm.trans hzn
    subst hzz
    exact ⟨hz', hord ▸ h.marked hz' hprop⟩
  · rintro ⟨hz, hq⟩
    obtain ⟨hnp, hres, hzn⟩ := h.zonePage hz
    obtain ⟨-, -, hprop, hord⟩ := h.free hq
    exact ⟨⟨hnp, hzn⟩, ⟨hres, hprop⟩, hord⟩

variable {n : ℕ}

/-- The pages of a block in use pass the assertion, and clearing them changes no mark. -/
lemma clearPages_spec (h : Inv zones b used)
    (hz : ∀ q ∈ Set.Ico p (p + n), InZone zones z q) (hused : Set.Ico p (p + n) ⊆ used) :
    ∃ b', clearPages n p b = .ok b' ∧ Inv zones b' used := by
  induction n generalizing p b with
  | zero => exact ⟨b, rfl, h⟩
  | succ n ih =>
    have hp : p ∈ Set.Ico p (p + (n + 1)) := ⟨le_rfl, by omega⟩
    have hres := (h.zonePage (hz p hp)).2.1
    have hprop := h.pageProperty_eq_false (hz p hp) (hused hp)
    have hsub : Set.Ico (p + 1) (p + 1 + n) ⊆ Set.Ico p (p + (n + 1)) :=
      fun q hq => ⟨by have := hq.1; omega, by have := hq.2; omega⟩
    rw [clearPages, hres, hprop]
    refine ih ?_ (fun q hq => hz q (hsub hq)) (hsub.trans hused)
    refine h.congr rfl rfl rfl rfl rfl ?_ ?_ ?_ ?_
    · exact modifyPage_proj pageReserved (by rw [hres]; simp [pageReserved])
    · exact modifyPage_proj pageProperty (by rw [hprop]; simp [pageProperty])
    · exact modifyPage_proj Page.zoneNum rfl
    · exact modifyPage_proj Page.property rfl

/-- A block and its buddy are the halves of their parent. -/
lemma block_union_buddy {i : ℕ} (base : ℕ) (h : 2 ^ k ∣ i) :
    block (base + i) k ∪ block (base + (i ^^^ 2 ^ k)) k =
      block (base + (i &&& (i ^^^ 2 ^ k))) (k + 1) := by grind [mem_block, buddy_cases]

/-- The parent is aligned. -/
lemma dvd_parent {i : ℕ} (h : 2 ^ k ∣ i) : 2 ^ (k + 1) ∣ i &&& (i ^^^ 2 ^ k) := by
  grind [buddy_cases]

variable {order : ℕ}

/-- The merging loop: the block in hand has grown into one without a free buddy, by free blocks
that are now used; what is used outside the block in hand has not changed. -/
lemma mergeLoop_spec (hz : zones[z]? = some zone) (fuel : ℕ)
    {idx : ℕ} (h : Inv zones b used) (hdvd : 2 ^ order ∣ idx)
    (hin : idx + 2 ^ order ≤ zone.2) (hle : order ≤ maxOrder) (hfuel : maxOrder ≤ order + fuel)
    (hused : block (zone.1 + idx) order ⊆ used) :
    ∃ order' idx' b' used', mergeLoop z fuel order idx b = (order', idx', b') ∧
      Inv zones b' used' ∧ order' ≤ maxOrder ∧ 2 ^ order' ∣ idx' ∧
      idx' + 2 ^ order' ≤ zone.2 ∧ block (zone.1 + idx') order' ⊆ used' ∧
      used' \ block (zone.1 + idx') order' = used \ block (zone.1 + idx) order ∧
      (order' < maxOrder → ¬(InZone zones z (zone.1 + (idx' ^^^ 2 ^ order')) ∧
        zone.1 + (idx' ^^^ 2 ^ order') ∈ b'.freeList order')) := by
  induction fuel generalizing order idx b used with
  | zero =>
    exact ⟨order, idx, b, used, rfl, h, hle, hdvd, hin, hused, rfl, fun hlt => by omega⟩
  | succ fuel ih =>
    rw [mergeLoop]
    by_cases hlt : order < maxOrder
    · simp only [if_pos hlt, idx2page, h.memBase hz]
      by_cases hbud : pageIsBuddy b (zone.1 + (idx ^^^ 2 ^ order)) order z = true
      · rw [if_pos hbud]
        obtain ⟨hbz, hbf⟩ := (pageIsBuddy_iff h _ _ _).mp hbud
        -- the buddy is a whole block of the zone, so the parent fits
        have hbin : (idx ^^^ 2 ^ order) + 2 ^ order ≤ zone.2 := by
          obtain ⟨-, ⟨z', hblk⟩, -⟩ := h.free hbf
          have hzz : z' = z := h.zone_unique (hblk.inZone (self_mem_block _ _)) hbz
          subst hzz
          obtain ⟨zone', hz', -, hhi, -⟩ := hblk
          grind
        have hpin : (idx &&& (idx ^^^ 2 ^ order)) + 2 ^ (order + 1) ≤ zone.2 := by
          rw [pow_succ]
          obtain ⟨-, hx, ha⟩ | ⟨hge, -, hx, ha⟩ := buddy_cases hdvd
          · rw [ha]
            omega
          · rw [ha]
            omega
        have hunion := block_union_buddy zone.1 hdvd
        have hsub : block (zone.1 + (idx &&& (idx ^^^ 2 ^ order))) (order + 1) ⊆
            used ∪ block (zone.1 + (idx ^^^ 2 ^ order)) order := by grind
        obtain ⟨order', idx', b', used', hrun, hinv, hle', hdvd', hin', hused', hrest, hmax⟩ :=
          ih (h.take hbf) (dvd_parent hdvd) hpin (by omega) (by omega) hsub
        refine ⟨order', idx', b', used', hrun, hinv, hle', hdvd', hin', hused', ?_, hmax⟩
        rw [hrest, ← hunion]
        ext q
        have hfree : q ∈ block (zone.1 + (idx ^^^ 2 ^ order)) order → q ∉ used :=
          h.notMem_used hbf
        simp only [mem_sdiff, mem_union]
        tauto
      · grind [pageIsBuddy_iff]
    · grind

/-- `buddy_free_pages_sub` on an aligned block in use. -/
lemma freePagesSub_spec (h : Inv zones b used) (hblk : IsBlock zones z p k)
    (hk : k ≤ maxOrder) (hused : block p k ⊆ used) :
    ∃ b', freePagesSub p k b = .ok b' ∧ Inv zones b' (used \ block p k) := by
  obtain ⟨zone, hz, hlo, hhi, hdvd⟩ := id hblk
  have hidx : page2idx b p = p - zone.1 := by
    rw [page2idx, (h.zonePage (hblk.inZone (self_mem_block p k))).2.2, h.memBase hz]
  have hp : zone.1 + (p - zone.1) = p := by omega
  obtain ⟨b1, hclear, h1⟩ := clearPages_spec h (fun q hq => hblk.inZone hq) hused
  have hzn : (b1.pages p).zoneNum = z := (h1.zonePage (hblk.inZone (self_mem_block p k))).2.2
  obtain ⟨k', idx', b2, used', hrun, h2, hk', hdvd', hin', hused', hrest, hmax⟩ :=
    mergeLoop_spec hz maxOrder h1 hdvd (by omega) hk (by omega) (hp.symm ▸ hused)
  rw [hp] at hrest
  rw [freePagesSub, hidx, Nat.and_two_pow_sub_one_eq_mod, if_pos (Nat.mod_eq_zero_of_dvd hdvd), hclear, ← hrest]
  refine ⟨_, rfl, ?_⟩
  simp only [hzn, hrun, idx2page, h2.memBase hz]
  refine h2.put ⟨zone, hz, by omega, by omega, ?_⟩ hk' hused' ?_
  · rwa [Nat.add_sub_cancel_left]
  · grind [buddyOf]

/-! ### Freeing a range -/

variable {base : ℕ}

lemma sdiff_block_sdiff (hn : 2 ^ k ≤ n) :
    (used \ block base k) \ Set.Ico (base + 2 ^ k) (base + 2 ^ k + (n - 2 ^ k)) =
      used \ Set.Ico base (base + n) := by grind [mem_block]

/-- The part of a used range behind a block is used still. -/
lemma rest_subset (hn : 2 ^ k ≤ n) (hused : Set.Ico base (base + n) ⊆ used) :
    Set.Ico (base + 2 ^ k) (base + 2 ^ k + (n - 2 ^ k)) ⊆ used \ block base k := by
  grind [mem_block]

/-- The first loop of `buddy_free_pages`: it frees the pages up to `base'`, which is aligned for
an order whose blocks no longer fit. -/
lemma freeUp_spec (hz : zones[z]? = some zone) (fuel : ℕ) (h : Inv zones b used) (hlo : zone.1 ≤ base)
    (hhi : base + n ≤ zone.1 + zone.2) (hn : n < 2 ^ (maxOrder + 1))
    (hdvd : 2 ^ order ∣ base - zone.1) (hle : order ≤ maxOrder + 1)
    (hfuel : maxOrder + 1 < order + fuel) (hused : Set.Ico base (base + n) ⊆ used) :
    ∃ base' n' order' b' used', freeUp fuel base n order b = .ok (base', n', order', b') ∧
      Inv zones b' used' ∧ base ≤ base' ∧ base' + n' = base + n ∧ order' ≤ maxOrder + 1 ∧
      n' < 2 ^ order' ∧ 2 ^ order' ∣ base' - zone.1 ∧ Set.Ico base' (base' + n') ⊆ used' ∧
      used' \ Set.Ico base' (base' + n') = used \ Set.Ico base (base + n) := by
  induction fuel generalizing base n order b used with
  | zero => omega
  | succ fuel ih =>
    rw [freeUp]
    by_cases hfit : 2 ^ order ≤ n
    · have hle' : order ≤ maxOrder := by grind
      have hbase : InZone zones z base := ⟨zone, hz, hlo, by omega⟩
      rw [if_pos hfit, if_pos hle', page2idx, (h.zonePage hbase).2.2, h.memBase hz]
      split_ifs with hbit
      · have hblk : IsBlock zones z base order := ⟨zone, hz, hlo, by omega, hdvd⟩
        have hsub : block base order ⊆ used :=
          fun q hq => hused ⟨hq.1, by have := hq.2; omega⟩
        obtain ⟨b1, hfree, h1⟩ := freePagesSub_spec h hblk hle' hsub
        have hdvd' : 2 ^ (order + 1) ∣ base + 2 ^ order - zone.1 := by
          have hEq : base + 2 ^ order - zone.1 = base - zone.1 + 2 ^ order := by omega
          rw [hEq]
          exact dvd_succ_of_and_ne_zero hdvd hbit
        obtain ⟨base', n', order', b', used', hrun, hinv, hge, hsum, ho, hn', hd, hu, hrest⟩ :=
          ih h1 (by omega) (by omega) (by omega) hdvd' (by omega) (by omega) (rest_subset hfit hused)
        refine ⟨base', n', order', b', used', ?_, hinv, by omega, by omega, ho, hn', hd, hu, ?_⟩
        · rw [hfree]
          exact hrun
        · rw [hrest, sdiff_block_sdiff hfit]
      · have hdvd' := dvd_succ_of_and_eq_zero hdvd (not_not.mp hbit)
        exact ih h hlo hhi hn hdvd' (by omega) (by omega) hused
    · rw [if_neg hfit]
      grind

/-- The second loop of `buddy_free_pages`: it frees the rest. -/
lemma freeDown_spec (hz : zones[z]? = some zone) (fuel : ℕ) (h : Inv zones b used) (hlo : zone.1 ≤ base)
    (hhi : base + n ≤ zone.1 + zone.2) (hdvd : 2 ^ order ∣ base - zone.1)
    (hle : order ≤ maxOrder ∨ n < 2 ^ order) (hle' : order ≤ maxOrder + 1)
    (hfuel : n + order < fuel) (hused : Set.Ico base (base + n) ⊆ used) :
    ∃ b', freeDown fuel base n order b = .ok b' ∧ Inv zones b' (used \ Set.Ico base (base + n)) := by
  induction fuel generalizing base n order b used with
  | zero => omega
  | succ fuel ih =>
    rw [freeDown]
    by_cases hn0 : n = 0
    · rw [if_pos hn0, hn0, add_zero, Set.Ico_self, sdiff_empty]
      exact ⟨b, rfl, h⟩
    · rw [if_neg hn0]
      by_cases hlt : n < 2 ^ order
      · rw [if_pos hlt]
        -- the order is positive, for a block of one page would fit
        have hpos : order ≠ 0 := by grind
        have hdvd' : 2 ^ (order - 1) ∣ base - zone.1 :=
          (Nat.pow_dvd_pow 2 (Nat.sub_le order 1)).trans hdvd
        grind
      · rw [if_neg hlt]
        have hfit : 2 ^ order ≤ n := by omega
        have hk : order ≤ maxOrder := hle.resolve_right hlt
        have hblk : IsBlock zones z base order := ⟨zone, hz, hlo, by omega, hdvd⟩
        have hsub : block base order ⊆ used :=
          fun q hq => hused ⟨hq.1, by have := hq.2; omega⟩
        obtain ⟨b1, hfree, h1⟩ := freePagesSub_spec h hblk hk hsub
        have hdvd' : 2 ^ order ∣ base + 2 ^ order - zone.1 := by
          have hEq : base + 2 ^ order - zone.1 = base - zone.1 + 2 ^ order := by omega
          rw [hEq]
          exact dvd_add hdvd dvd_rfl
        obtain ⟨b', hrun, h'⟩ := ih h1 (by omega) (by omega) hdvd' (.inl hk) hle' (by omega) (rest_subset hfit hused)
        refine ⟨b', ?_, ?_⟩
        · rw [hfree]
          exact hrun
        · rwa [sdiff_block_sdiff hfit] at h'

/-- `buddy_free_pages` on a used range of a zone. -/
lemma freePages_spec (h : Inv zones b used)
    (hz : zones[z]? = some zone) (hlo : zone.1 ≤ base) (hhi : base + n ≤ zone.1 + zone.2)
    (hpos : 0 < n) (hn : n ≤ 2 ^ maxOrder) (hused : Set.Ico base (base + n) ⊆ used) :
    ∃ b', freePages base n b = .ok b' ∧ Inv zones b' (used \ Set.Ico base (base + n)) := by
  rw [freePages, if_pos hpos]
  obtain rfl | h1 := eq_or_ne n 1
  · rw [if_pos rfl]
    exact freePagesSub_spec h ⟨zone, hz, hlo, hhi, one_dvd _⟩ (Nat.zero_le _) hused
  · rw [if_neg h1]
    have hn' : n < 2 ^ (maxOrder + 1) := by
      rw [pow_succ]
      omega
    obtain ⟨base', n', order', b', used', hrun, h', hge, hsum, ho, hlt, hd, hu, hrest⟩ :=
      freeUp_spec hz (maxOrder + 2) h hlo hhi hn' (one_dvd _) (Nat.zero_le _) (by omega) hused
    obtain ⟨b'', hrun', h''⟩ := freeDown_spec hz (n' + order' + 1) h' (by omega) (by omega) hd
      (.inr hlt) ho (by omega) hu
    refine ⟨b'', ?_, ?_⟩
    · rw [hrun]
      exact hrun'
    · rwa [hrest] at h''

/-! ### Allocation -/

/-- `getorder` finds the smallest order whose blocks are large enough. -/
lemma getorderLoop_spec (fuel order : ℕ) (hfuel : order + fuel = maxOrder + 1)
    (hn : n ≤ 2 ^ maxOrder) (hsmall : ∀ k < order, 2 ^ k < n) :
    ∃ r, getorderLoop n fuel order = .ok r ∧ r ≤ maxOrder ∧ n ≤ 2 ^ r ∧ ∀ k < r, 2 ^ k < n := by
  induction fuel generalizing order with
  | zero =>
    have hlt := hsmall maxOrder (by omega)
    omega
  | succ fuel ih =>
    rw [getorderLoop]
    by_cases hfit : n ≤ 2 ^ order
    · grind
    · rw [if_neg hfit]
      refine ih (order + 1) (by omega) fun k hk => ?_
      grind

/-- Marks on the allocated page do not matter to the splitting loop, which marks others. -/
lemma splitLoop_modifyPage (order page : ℕ) (f : Page → Page) (cur : ℕ) (b : Buddy) :
    splitLoop order page cur (modifyPage b page f) = modifyPage (splitLoop order page cur b) page f := by
  induction cur generalizing b with
  | zero => rfl
  | succ cur ih =>
    rw [splitLoop, splitLoop]
    split_ifs
    · rw [← ih]
      have hne : page + 2 ^ cur ≠ page := (Nat.lt_add_of_pos_right (Nat.two_pow_pos cur)).ne'
      congr 1
      simp only [putBlock, modifyPage, update_of_ne hne, update_of_ne hne.symm, update_comm hne]
    · rfl

/-- The splitting loop: of the block in hand the lowest part of the order asked for stays. -/
lemma splitLoop_spec {page : ℕ} (cur : ℕ) (h : Inv zones b used)
    (hblk : IsBlock zones z page cur) (horder : order ≤ cur) (hcur : cur ≤ maxOrder)
    (hused : block page cur ⊆ used) : IsBlock zones z page order ∧ Inv zones (splitLoop order page cur b)
      (used \ block page cur ∪ block page order) := by
  induction cur generalizing b used with
  | zero =>
    obtain rfl : order = 0 := by omega
    rw [sdiff_union_of_subset hused]
    exact ⟨hblk, h⟩
  | succ cur ih =>
    rw [splitLoop]
    by_cases hlt : order < cur + 1
    · rw [if_pos hlt]
      obtain ⟨zone, hz, hlo, hhi, hdvd⟩ := id hblk
      have hpos := Nat.two_pow_pos cur
      rw [pow_succ] at hhi
      have hdvd' : 2 ^ cur ∣ page - zone.1 := (Nat.pow_dvd_pow 2 (Nat.le_succ cur)).trans hdvd
      have hidx : page + 2 ^ cur - zone.1 = page - zone.1 + 2 ^ cur := by omega
      have hpage : page ∈ block page (cur + 1) := self_mem_block _ _
      have hupper : block (page + 2 ^ cur) cur ⊆ block page (cur + 1) := by grind [mem_block]
      have hlower : block page cur ⊆ used \ block (page + 2 ^ cur) cur := by
        intro q hq
        rw [mem_block] at hq
        refine ⟨hused ?_, fun hq' => ?_⟩
        · rw [mem_block, pow_succ]
          omega
        · rw [mem_block] at hq'
          omega
      -- the buddy of the upper half is the lower one, which is in hand
      have hput := h.put
        ⟨zone, hz, by omega, by omega, hidx ▸ dvd_add hdvd' dvd_rfl⟩ (by omega)
        (hupper.trans hused) (by
          intro _ zone' hz' _
          cases hz.symm.trans hz'
          rw [buddyOf, hidx, ← xor_of_dvd_succ hdvd, Nat.xor_xor_cancel_right, Nat.add_sub_cancel' hlo]
          exact h.notMem_freeList (hblk.inZone hpage) (hused hpage) cur)
      obtain ⟨hblk', hinv⟩ := ih hput ⟨zone, hz, hlo, by omega, hdvd'⟩ (by omega) (by omega) hlower
      refine ⟨hblk', ?_⟩
      have hEq : (used \ block (page + 2 ^ cur) cur) \ block page cur =
          used \ block page (cur + 1) := by grind [mem_block]
      rwa [hEq] at hinv
    · grind [sdiff_union_of_subset]

/-- `buddy_alloc_pages_sub`: there is no block of the order or above it, or a block of the order
that was free is now used. -/
lemma allocLoop_spec (turns cur : ℕ) (h : Inv zones b used)
    (horder : order ≤ cur) (hturns : turns + cur = maxOrder + 1) : (allocLoop order turns cur b = (none, b) ∧
      ∀ k, cur ≤ k → k ≤ maxOrder → b.freeList k = []) ∨
    ∃ page z b', allocLoop order turns cur b = (some page, b') ∧ IsBlock zones z page order ∧
      Disjoint (block page order) used ∧ Inv zones b' (used ∪ block page order) := by
  induction turns generalizing cur with
  | zero => exact .inl ⟨rfl, fun k hk hk' => by omega⟩
  | succ turns ih =>
    rw [allocLoop]
    cases hlist : b.freeList cur with
    | nil =>
      obtain ⟨hrun, hnone⟩ | hsome := ih (cur + 1) (by omega) (by omega)
      · grind
      · exact .inr hsome
    | cons page rest =>
      have hmem : page ∈ b.freeList cur := hlist ▸ (.head _)
      obtain ⟨-, ⟨z, hblk⟩, -⟩ := h.free hmem
      obtain ⟨hblk', hinv⟩ := splitLoop_spec cur (h.take hmem) hblk horder (by omega) subset_union_right
      have hdisj : Disjoint (block page cur) used :=
        disjoint_left.mpr fun q hq => h.notMem_used hmem hq
      have hsub : block page order ⊆ block page cur := by
        intro q hq
        have hle := Nat.pow_le_pow_right (n := 2) (by omega) horder
        rw [mem_block] at hq ⊢
        omega
      grind [splitLoop_modifyPage, union_sdiff_cancel_right]

/-- `buddy_alloc_pages`: either there is no block of the order or above it, or the result is the
first of `n` pages of one zone that were not used and now are. -/
lemma allocPages_spec (h : Inv zones b used) (hpos : 0 < n) (hn : n ≤ 2 ^ maxOrder) :
    ∃ order, getorder n = .ok order ∧
      ((allocPages n b = .ok (none, b) ∧ ∀ k, order ≤ k → k ≤ maxOrder → b.freeList k = []) ∨
      ∃ page z b', allocPages n b = .ok (some page, b') ∧ (∀ q ∈ Set.Ico page (page + n), InZone zones z q) ∧
        Disjoint (Set.Ico page (page + n)) used ∧ Inv zones b' (used ∪ Set.Ico page (page + n))) := by
  obtain ⟨order, hgo, hle, hfit, -⟩ :=
    getorderLoop_spec (maxOrder + 1) 0 (zero_add _) hn fun k hk => absurd hk (Nat.not_lt_zero k)
  refine ⟨order, hgo, ?_⟩
  rw [allocPages, if_pos hpos, getorder, hgo, ok_bind, allocPagesSub, if_pos hle, ok_bind]
  rcases allocLoop_spec (maxOrder + 1 - order) order h le_rfl (by omega) with
    ⟨hrun, hnone⟩ | ⟨page, z, b', hrun, hblk, hdisj, hinv⟩
  · rw [hrun]
    exact .inl ⟨rfl, hnone⟩
  · rw [hrun]
    obtain ⟨zone, hz, hlo, hhi, -⟩ := id hblk
    have hall : Set.Ico page (page + n) ⊆ block page order :=
      fun q hq => ⟨hq.1, by have := hq.2; omega⟩
    refine .inr ⟨page, z, ?_⟩
    dsimp only
    by_cases hexact : n = 2 ^ order
    · rw [if_neg (not_not.mpr hexact)]
      refine ⟨b', rfl, fun q hq => hblk.inZone (hall hq), hdisj.mono_left hall, ?_⟩
      rw [hexact]
      exact hinv
    · -- the tail of the block is given back
      rw [if_pos (hexact)]
      have htail : Set.Ico (page + n) (page + n + (2 ^ order - n)) ⊆ used ∪ block page order :=
        fun q hq => .inr ⟨by have := hq.1; omega, by have := hq.2; omega⟩
      have hpow := Nat.pow_le_pow_right (n := 2) (by omega) hle
      obtain ⟨b'', hfree, hinv'⟩ := freePages_spec hinv hz (by omega) (by omega) (by omega) (by omega) htail
      rw [hfree]
      refine ⟨b'', rfl, fun q hq => hblk.inZone (hall hq), hdisj.mono_left hall, ?_⟩
      have hEq : (used ∪ block page order) \ Set.Ico (page + n) (page + n + (2 ^ order - n)) =
          used ∪ Set.Ico page (page + n) := by
        ext q
        have hout : q ∈ used → ¬(page ≤ q ∧ q < page + 2 ^ order) :=
          fun hq hq' => disjoint_left.mp hdisj hq' hq
        simp only [mem_sdiff, mem_union, mem_block, mem_Ico]
        by_cases hq : q ∈ used
        · grind
        · simp only [hq, false_or]
          omega
      rwa [hEq] at hinv'

end UcoreKernel.Pmm
