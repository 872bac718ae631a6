import UcoreKernel.Mm.Buddy

/-!
The buddy allocator from the first zone on, and through every sequence of calls of its users.
-/

namespace UcoreKernel.Pmm

open AlignedBlock Function List

variable {zones : List (ℕ × ℕ)} {b : Buddy} {used : Set ℕ}

/-! ### A new zone -/

variable {zone : ℕ × ℕ} {z p : ℕ}

lemma inZone_append : InZone (zones ++ [zone]) z p ↔
      InZone zones z p ∨ (z = zones.length ∧ zone.1 ≤ p ∧ p < zone.1 + zone.2) := by
  rw [InZone, InZone]
  obtain hlt | rfl | hgt := Nat.lt_trichotomy z zones.length
  · grind
  · grind
  · grind

lemma getElem?_append_zone {zone' : ℕ × ℕ} (h : (zones ++ [zone])[z]? = some zone') :
    zones[z]? = some zone' ∨ (z = zones.length ∧ zone' = zone) := by
  obtain hlt | rfl | hgt := Nat.lt_trichotomy z zones.length
  · rw [getElem?_append_left hlt] at h
    exact .inl h
  · grind
  · grind

lemma IsBlock.append {k : ℕ} (h : IsBlock zones z p k) : IsBlock (zones ++ [zone]) z p k := by
  obtain ⟨zone', hz, hrest⟩ := h
  have hlt : z < zones.length := (List.getElem?_eq_some_iff.mp hz).1
  exact ⟨zone', by rw [getElem?_append_left hlt, hz], hrest⟩

variable {n base : ℕ} {b' : Buddy}

/-- The loop over the pages of a new zone. -/
lemma initPages_spec (h : initPages z n base b = .ok b') :
    (∀ p ∈ Set.Ico base (base + n), pageReserved (b.pages p) = true) ∧
      b' = { b with pages := fun p =>
        if base ≤ p ∧ p < base + n then ⟨0, 0, z, 0⟩ else b.pages p } := by
  induction n generalizing base b with
  | zero =>
    cases h
    refine ⟨fun p hp => absurd hp (by simp), ?_⟩
    have hnone : ∀ p, ¬(base ≤ p ∧ p < base + 0) := fun p => by omega
    simp only [if_neg (hnone _)]
  | succ n ih =>
    rw [initPages] at h
    split_ifs at h with hres
    obtain ⟨hall, rfl⟩ := ih h
    refine ⟨fun p hp => ?_, ?_⟩
    · rw [Set.mem_Ico] at hp
      by_cases hpb : p = base
      · rw [hpb, hres]
      · have := hall p ⟨by omega, by omega⟩
        rwa [modifyPage_ne hpb] at this
    · grind [modifyPage, modifyPage_same, modifyPage_ne]

/-- A new zone whose pages were all reserved, before its blocks are carved. -/
lemma Inv.addZone (h : Inv zones b ∅)
    (hres : ∀ p ∈ Set.Ico base (base + n), pageReserved (b.pages p) = true) : Inv (zones ++ [(base, n)])
      { b with
        pages := fun p =>
          if base ≤ p ∧ p < base + n then ⟨0, 0, zones.length, 0⟩ else b.pages p
        memBase := update b.memBase zones.length base
        zoneNum := zones.length + 1 } (Set.Ico base (base + n)) := by
  have hold : ∀ {z p}, InZone zones z p → ¬(base ≤ p ∧ p < base + n) := by
    intro z p hz hp
    have hr := hres p hp
    rw [(h.zonePage hz).2.1] at hr
    cases hr
  have hfree : ∀ {p k}, p ∈ b.freeList k → ∀ q ∈ block p k, ¬(base ≤ q ∧ q < base + n) := by
    intro p k hp q hq
    obtain ⟨-, ⟨z, hblk⟩, -⟩ := h.free hp
    exact hold (hblk.inZone hq)
  exact {
    zoneNum := by rw [length_append, length_singleton]
    memBase := by
      intro z zone hz
      obtain hz | ⟨rfl, rfl⟩ := getElem?_append_zone hz
      · have hlt : z < zones.length := (List.getElem?_eq_some_iff.mp hz).1
        exact (update_of_ne (by omega) ..).trans (h.memBase hz)
      · exact update_self ..
    zonePage := by
      intro z p hz
      show p < b.npage ∧ _
      obtain hz | ⟨rfl, hp⟩ := inZone_append.mp hz
      · simp only [if_neg (hold hz)]
        exact h.zonePage hz
      · simp only [if_pos hp]
        refine ⟨?_, by simp [pageReserved]⟩
        by_contra hout
        have hr := hres p hp
        rw [h.outside (by omega)] at hr
        cases hr
    otherPage := by
      intro p hp hz
      have hnew : ¬(base ≤ p ∧ p < base + n) :=
        fun hp' => hz zones.length (inZone_append.mpr (.inr ⟨rfl, hp'⟩))
      simp only [if_neg hnew]
      exact h.otherPage hp fun z hz' => hz z (inZone_append.mpr (.inl hz'))
    outside := by
      intro p hp
      have hnew : ¬(base ≤ p ∧ p < base + n) := by
        intro hp'
        have hr := hres p hp'
        rw [h.outside hp] at hr
        cases hr
      simp only [if_neg hnew]
      exact h.outside hp
    nrFree := h.nrFree
    nodup := h.nodup
    free := by
      intro p k hp
      simp only [if_neg (hfree hp p (self_mem_block p k))]
      obtain ⟨hk, ⟨z, hblk⟩, hmark⟩ := h.free hp
      exact ⟨hk, ⟨z, hblk.append⟩, hmark⟩
    marked := by
      intro z p hz hmark
      obtain hz | ⟨rfl, hp⟩ := inZone_append.mp hz
      · simp only [if_neg (hold hz)] at hmark ⊢
        exact h.marked hz hmark
      · simp [if_pos hp, pageProperty] at hmark
    used_iff := by
      intro z p hz
      obtain hz | ⟨rfl, hp⟩ := inZone_append.mp hz
      · rw [Set.mem_Ico, ← h.used_iff hz]
        exact iff_of_false (hold hz) (Set.notMem_empty p)
      · exact iff_of_true hp fun k q hq hpq => hfree hq p hpq hp
    disjoint := h.disjoint
    maximal := by
      intro z zone p k hp hk hz hin hin'
      -- the block lies in an old zone, and so does its buddy
      have hin0 : InZone zones z p :=
        (inZone_append.mp hin).resolve_right fun hnew => hfree hp p (self_mem_block p k) hnew.2
      have hlt : z < zones.length := by
        obtain ⟨zone', hz', -⟩ := hin0
        exact (List.getElem?_eq_some_iff.mp hz').1
      rw [getElem?_append_left hlt] at hz
      exact h.maximal hp hk hz hin0 ((inZone_append.mp hin').resolve_right fun hnew => by omega) }

/-- The blocks of one order at the end of a zone. -/
lemma carveOrder_spec (hz : zones[z]? = some zone) {order : ℕ}
    (horder : order ≤ maxOrder) (fuel : ℕ) (h : Inv zones b used) (hfuel : n ≤ fuel)
    (hlo : zone.1 ≤ p) (hend : p + n = zone.1 + zone.2) (hdvd : 2 ^ order ∣ p - zone.1)
    (hone : order < maxOrder → n < 2 ^ order ∨ (n < 2 ^ (order + 1) ∧ 2 ^ (order + 1) ∣ p - zone.1))
    (hused : Set.Ico p (p + n) ⊆ used) :
    ∃ n' p' b' used', carveOrder order fuel n p b = (n', p', b') ∧ Inv zones b' used' ∧
      n' < 2 ^ order ∧ zone.1 ≤ p' ∧ p' + n' = zone.1 + zone.2 ∧ 2 ^ order ∣ p' - zone.1 ∧
      Set.Ico p' (p' + n') ⊆ used' ∧ used' \ Set.Ico p' (p' + n') = used \ Set.Ico p (p + n) := by
  have hpos := Nat.two_pow_pos order
  induction fuel generalizing n p b used with
  | zero =>
    exact ⟨n, p, b, used, rfl, h, by omega, hlo, hend, hdvd, hused, rfl⟩
  | succ fuel ih =>
    rw [carveOrder]
    by_cases hfit : 2 ^ order ≤ n
    · rw [if_pos hfit]
      have hsub : block p order ⊆ used := fun q hq => hused ⟨hq.1, by have := hq.2; omega⟩
      have hidx : p + 2 ^ order - zone.1 = p - zone.1 + 2 ^ order := by omega
      have hput := h.put ⟨zone, hz, hlo, by omega, hdvd⟩ horder hsub (by
        intro hlt zone' hz' hin
        cases hz.symm.trans hz'
        have hd : 2 ^ (order + 1) ∣ p - zone.1 := ((hone hlt).resolve_left (by omega)).2
        -- the buddy follows the block, where nothing has been carved yet
        have hbud : buddyOf zone.1 p order = p + 2 ^ order := by
          rw [buddyOf, xor_of_dvd_succ hd]
          omega
        obtain ⟨zone', hz', -, hhi⟩ := id hin
        cases hz.symm.trans hz'
        exact h.notMem_freeList hin (hused ⟨by omega, by omega⟩) order)
      obtain ⟨n', p', b', used', hrun, h', hn', hlo', hend', hd', hu', hrest⟩ :=
        ih hput (by omega) (by omega) (by omega) (hidx ▸ dvd_add hdvd dvd_rfl)
          (fun hlt => .inl (by grind))
          (rest_subset hfit hused)
      grind [sdiff_block_sdiff]
    · grind

/-- The blocks of the given order and below at the end of a zone use up all its pages. -/
lemma carve_spec (hz : zones[z]? = some zone) (order : ℕ) (horder : order ≤ maxOrder) (h : Inv zones b used)
    (hlo : zone.1 ≤ p) (hend : p + n = zone.1 + zone.2) (hdvd : 2 ^ order ∣ p - zone.1)
    (hone : order < maxOrder → n < 2 ^ order ∨ (n < 2 ^ (order + 1) ∧ 2 ^ (order + 1) ∣ p - zone.1))
    (hused : Set.Ico p (p + n) ⊆ used) : Inv zones (carve order n p b) (used \ Set.Ico p (p + n)) := by
  induction order generalizing n p b used with
  | zero =>
    rw [carve]
    split_ifs with hn
    · rw [hn, add_zero, Set.Ico_self, Set.sdiff_empty]
      exact h
    · obtain ⟨n', p', b', used', hrun, h', hn', -, -, -, -, hrest⟩ :=
        carveOrder_spec hz horder n h le_rfl hlo hend hdvd hone hused
      obtain rfl : n' = 0 := by simpa using hn'
      grind [Set.Ico_self, Set.sdiff_empty]
  | succ order ih =>
    rw [carve]
    split_ifs with hn
    · rw [hn, add_zero, Set.Ico_self, Set.sdiff_empty]
      exact h
    · obtain ⟨n', p', b', used', hrun, h', hn', hlo', hend', hd', hu', hrest⟩ :=
        carveOrder_spec hz horder n h le_rfl hlo hend hdvd hone hused
      rw [hrun, ← hrest]
      exact ih (by omega) h' hlo' hend' ((Nat.pow_dvd_pow 2 (Nat.le_succ order)).trans hd')
        (fun _ => .inr ⟨hn', hd'⟩) hu'

/-- `buddy_init_memmap`, if its assertions hold, adds the zone with all its pages free. -/
lemma initMemmap_spec (h : Inv zones b ∅)
    (hrun : initMemmap base n b = .ok b') : Inv (zones ++ [(base, n)]) b' ∅ := by
  rw [initMemmap] at hrun
  split_ifs at hrun with hassert
  obtain ⟨b1, hpages, hrun⟩ := bind_eq_ok_iff.mp hrun
  obtain ⟨hres, rfl⟩ := initPages_spec hpages
  cases hrun
  rw [h.zoneNum]
  have hz : (zones ++ [(base, n)])[zones.length]? = some (base, n) := getElem?_concat_length
  have hcarve := carve_spec hz maxOrder le_rfl (h.addZone hres) le_rfl rfl
    (by simp) (fun hlt => absurd hlt (lt_irrefl _)) subset_rfl
  rwa [Set.sdiff_self] at hcarve

/-- The allocator before the first zone. -/
lemma buddyInit_inv (npage : ℕ) (pages : ℕ → Page) : Inv [] (buddyInit npage pages) ∅ where
  zoneNum := rfl
  memBase := by rintro z zone ⟨⟩
  zonePage := by rintro z p ⟨zone, ⟨⟩, -⟩
  otherPage := by
    intro p hp _
    have hp' : p < npage := hp
    simp [buddyInit, if_pos hp']
  outside := by grind [buddyInit, pageReserved]
  nrFree := fun _ => rfl
  nodup := fun _ => nodup_nil
  free := by rintro p k ⟨⟩
  marked := by rintro z p ⟨zone, ⟨⟩, -⟩
  used_iff := by rintro z p ⟨zone, ⟨⟩, -⟩
  disjoint := by rintro q q' k k' p ⟨⟩
  maximal := by rintro z zone p k ⟨⟩

/-- Every zone is added with all its pages free. -/
lemma initZones_spec (more : List (ℕ × ℕ)) (h : Inv zones b ∅)
    (hrun : initZones more b = .ok b') : Inv (zones ++ more) b' ∅ := by
  induction more generalizing zones b with
  | nil =>
    cases hrun
    rwa [append_nil]
  | cons zone more ih =>
    obtain ⟨b1, hinit, hrun⟩ := bind_eq_ok_iff.mp hrun
    have h1 := ih (initMemmap_spec h hinit) hrun
    rwa [append_assoc] at h1

/-! ### The count of free pages -/

/-- The free pages are those of the blocks on the lists. -/
lemma Inv.free_iff (h : Inv zones b used) :
    (∃ k q, q ∈ b.freeList k ∧ p ∈ block q k) ↔ (∃ z, InZone zones z p) ∧ p ∉ used := by
  constructor
  · rintro ⟨k, q, hq, hp⟩
    obtain ⟨-, ⟨z, hblk⟩, -⟩ := h.free hq
    exact ⟨⟨z, hblk.inZone hp⟩, h.notMem_used hq hp⟩
  · rintro ⟨⟨z, hz⟩, hp⟩
    rw [h.used_iff hz] at hp
    push Not at hp
    exact hp

/-- The pages of the blocks of one order. -/
def orderPages (b : Buddy) (k : ℕ) : Finset ℕ :=
  (b.freeList k).toFinset.biUnion fun q => Finset.Ico q (q + 2 ^ k)

lemma mem_orderPages {k : ℕ} : p ∈ orderPages b k ↔ ∃ q ∈ b.freeList k, p ∈ block q k := by
  simp [orderPages]

lemma card_orderPages (h : Inv zones b used) (k : ℕ) : (orderPages b k).card = b.nrFree k * 2 ^ k := by
  have hdisj : ((b.freeList k).toFinset : Set ℕ).PairwiseDisjoint
      fun q => Finset.Ico q (q + 2 ^ k) := by
    intro q hq q' hq' hne
    rw [onFun, Finset.disjoint_left]
    intro p hp hp'
    exact hne (h.disjoint (by simpa using hq) (by simpa using hq') (Finset.mem_Ico.mp hp) (Finset.mem_Ico.mp hp')).1
  rw [orderPages, Finset.card_biUnion hdisj]
  simp only [Nat.card_Ico, Nat.add_sub_cancel_left, Finset.sum_const, smul_eq_mul]
  rw [toFinset_card_of_nodup (h.nodup k), h.nrFree k]

/-- `buddy_nr_free_pages` counts the free pages. -/
lemma nrFreePages_eq (h : Inv zones b used) :
    nrFreePages b = {p | (∃ z, InZone zones z p) ∧ p ∉ used}.ncard := by
  have hset : {p | (∃ z, InZone zones z p) ∧ p ∉ used} =
      ((Finset.range (maxOrder + 1)).biUnion (orderPages b) : Finset ℕ) := by
    ext p
    rw [Set.mem_ofPred_eq, ← h.free_iff]
    simp only [Finset.mem_coe, Finset.mem_biUnion, Finset.mem_range, mem_orderPages]
    refine ⟨fun ⟨k, q, hq, hp⟩ => ⟨k, Nat.lt_succ_of_le (h.free hq).1, q, hq, hp⟩, ?_⟩
    rintro ⟨k, -, q, hq, hp⟩
    exact ⟨k, q, hq, hp⟩
  have hdisj : ((Finset.range (maxOrder + 1)) : Set ℕ).PairwiseDisjoint (orderPages b) := by
    intro k _ k' _ hne
    rw [onFun, Finset.disjoint_left]
    intro p hp hp'
    obtain ⟨q, hq, hpq⟩ := mem_orderPages.mp hp
    obtain ⟨q', hq', hpq'⟩ := mem_orderPages.mp hp'
    exact hne (h.disjoint hq hq' hpq hpq').2
  rw [hset, Set.ncard_coe_finset, Finset.card_biUnion hdisj, nrFreePages]
  simp only [card_orderPages h]
  rfl

/-! ### The users -/

/-- The pages that belong to an allocation. -/
def System.owned (s : System) : Set ℕ := {p | s.owner p ≠ none}

/-- The allocator is in order, and each allocation lies in one zone and is not longer than the
largest block. -/
structure SysInv (zones : List (ℕ × ℕ)) (s : System) : Prop where
  inv : Inv zones s.buddy s.owned
  together : ∀ {p q id}, s.owner p = some id → s.owner q = some id →
    q < p + 2 ^ maxOrder ∧ ∃ z, InZone zones z p ∧ InZone zones z q
  fresh : ∀ {p id}, s.owner p = some id → id < s.allocations

/-- The pages in use after an allocation. -/
lemma owned_alloc (s : System) (b' : Buddy) (page n : ℕ) :
    System.owned ⟨b', fun p => if page ≤ p ∧ p < page + n then some s.allocations else s.owner p,
      s.allocations + 1⟩ = s.owned ∪ Set.Ico page (page + n) := by
  ext p
  by_cases hp : page ≤ p ∧ p < page + n
  · simp [System.owned, hp]
  · grind [System.owned]

/-- The pages in use after some are freed. -/
lemma owned_free (s : System) (b' : Buddy) (base n : ℕ) :
    System.owned ⟨b', fun p => if base ≤ p ∧ p < base + n then none else s.owner p,
      s.allocations⟩ = s.owned \ Set.Ico base (base + n) := by
  ext p
  by_cases hp : base ≤ p ∧ p < base + n
  · simp [System.owned, hp]
  · grind [System.owned]

variable {s : System}

/-- `alloc_pages` within its range. -/
lemma SysInv.alloc (h : SysInv zones s) (hpos : 0 < n)
    (hn : n ≤ 2 ^ maxOrder) : ∃ s' r, step s (.alloc n) = .ok (s', r) ∧ SysInv zones s' := by
  obtain ⟨order, -, ⟨hrun, -⟩ | ⟨page, z, b', hrun, hz, hdisj, hinv⟩⟩ :=
    allocPages_spec h.inv hpos hn
  · refine ⟨s, none, ?_, h⟩
    rw [step, hrun]
    rfl
  · refine ⟨_, some page, by rw [step, hrun]; rfl, ?_⟩
    exact {
      inv := by
        rw [owned_alloc]
        exact hinv
      together := by
        intro p q id hp hq
        dsimp only at hp hq
        split_ifs at hp with hp' <;> split_ifs at hq with hq'
        · exact ⟨by omega, z, hz p hp', hz q hq'⟩
        · cases hp
          exact absurd (h.fresh hq) (lt_irrefl _)
        · cases hq
          exact absurd (h.fresh hp) (lt_irrefl _)
        · exact h.together hp hq
      fresh := by
        intro p id hp
        dsimp only at hp ⊢
        split_ifs at hp with hp'
        · cases hp
          exact Nat.lt_succ_self _
        · exact (h.fresh hp).trans (Nat.lt_succ_self _) }

/-- `free_pages` on pages in a row of one allocation. -/
lemma SysInv.freePages {id : ℕ} (h : SysInv zones s) (hpos : 0 < n)
    (hown : ∀ p, base ≤ p → p < base + n → s.owner p = some id) :
    ∃ s' r, step s (.free base n) = .ok (s', r) ∧ SysInv zones s' := by
  -- the first and the last page show that the range is short enough and lies in one zone
  have hfirst := hown base le_rfl (by omega)
  have hlast := hown (base + n - 1) (by omega) (by omega)
  obtain ⟨hlen, z, ⟨zone, hz, hlo, -⟩, ⟨zone', hz', -, hhi⟩⟩ := h.together hfirst hlast
  cases hz.symm.trans hz'
  have hused : Set.Ico base (base + n) ⊆ s.owned := by
    intro p hp
    show s.owner p ≠ none
    rw [hown p hp.1 hp.2]
    exact Option.some_ne_none id
  obtain ⟨b', hrun, hinv⟩ :=
    freePages_spec h.inv hz hlo (by omega) hpos (by omega) hused
  refine ⟨_, none, by rw [step, hrun]; rfl, ?_⟩
  exact {
    inv := by
      rw [owned_free]
      exact hinv
    together := by
      intro p q id' hp hq
      dsimp only at hp hq
      split_ifs at hp with hp'
      split_ifs at hq with hq'
      exact h.together hp hq
    fresh := by
      intro p id' hp
      dsimp only at hp
      split_ifs at hp with hp'
      exact h.fresh hp }

/-- An allowed call succeeds and keeps the invariant. -/
lemma step_inv {op : Op} (h : SysInv zones s) (hop : op.Allowed s) :
    ∃ s' r, step s op = .ok (s', r) ∧ SysInv zones s' := by
  cases op with
  | alloc n => exact h.alloc hop.1 hop.2
  | free base n =>
    obtain ⟨hpos, id, hown⟩ := hop
    exact h.freePages hpos hown

/-- So does every sequence of allowed calls. -/
lemma run_inv (ops : List Op) (h : SysInv zones s) (hops : AllAllowed s ops) :
    ∃ s', run s ops = .ok s' ∧ SysInv zones s' := by
  induction ops generalizing s with
  | nil => exact ⟨s, rfl, h⟩
  | cons op ops ih =>
    obtain ⟨s1, r, hstep, h1⟩ := step_inv h hops.1
    obtain ⟨s', hrun, h'⟩ := ih h1 (hops.2 s1 r hstep)
    refine ⟨s', ?_, h'⟩
    rw [run, hstep]
    exact hrun

/-- The system before the first call. -/
lemma initSystem_inv {npage : ℕ} {pages : ℕ → Page} {b₀ : Buddy}
    (hinit : initZones zones (buddyInit npage pages) = .ok b₀) : SysInv zones ⟨b₀, fun _ => none, 0⟩ := by
  have hinv := initZones_spec zones (buddyInit_inv npage pages) hinit
  refine ⟨?_, ?_, ?_⟩
  rotate_left
  · rintro p q id ⟨⟩
  · rintro p id ⟨⟩
  grind [System.owned]

/-- The pages of a successful `alloc_pages` belong to the new allocation. -/
lemma owner_of_alloc {s' : System} {page : ℕ} (h : step s (.alloc n) = .ok (s', some page))
    (hlo : page ≤ p) (hhi : p < page + n) : s'.owner p = some s.allocations := by
  obtain ⟨⟨r, b'⟩, -, h⟩ := bind_eq_ok_iff.mp h
  cases r with
  | none => cases h
  | some q =>
    cases h
    exact if_pos ⟨hlo, hhi⟩

/-- **The buddy allocator.**  From any zones that `init_memmap` accepts, every sequence of
allowed calls runs without a failed assertion, and in the state it reaches: the blocks on the
free lists are pairwise disjoint; each is aligned in its zone and lies inside it; they cover
exactly the pages of the zones that belong to no allocation; no block of an order below
`MAX_ORDER` has its buddy on the same list; `nr_free_pages` is the number of free pages; and the
next `alloc_pages` returns the first of `n` free pages of one zone, or `NULL` when the lists of
all orders from `getorder n` on are empty. -/
theorem buddy_allocator_correct (npage : ℕ) (pages : ℕ → Page) (zones : List (ℕ × ℕ))
    (b₀ : Buddy) (hinit : initZones zones (buddyInit npage pages) = .ok b₀) (ops : List Op)
    (hops : AllAllowed ⟨b₀, fun _ => none, 0⟩ ops) : ∃ s, run ⟨b₀, fun _ => none, 0⟩ ops = .ok s ∧
      (∀ k, (s.buddy.freeList k).Nodup) ∧
      (∀ q k q' k', q ∈ s.buddy.freeList k → q' ∈ s.buddy.freeList k' → (q, k) ≠ (q', k') →
        Disjoint (block q k) (block q' k')) ∧
      (∀ q k, q ∈ s.buddy.freeList k → k ≤ maxOrder ∧ ∃ z, IsBlock zones z q k) ∧
      (∀ p, (∃ k q, q ∈ s.buddy.freeList k ∧ p ∈ block q k) ↔
        (∃ z, InZone zones z p) ∧ s.owner p = none) ∧
      (∀ z zone q k, zones[z]? = some zone → InZone zones z q → q ∈ s.buddy.freeList k →
        k < maxOrder → InZone zones z (buddyOf zone.1 q k) →
        buddyOf zone.1 q k ∉ s.buddy.freeList k) ∧
      nrFreePages s.buddy = {p | (∃ z, InZone zones z p) ∧ s.owner p = none}.ncard ∧
      ∀ n, 0 < n → n ≤ 2 ^ maxOrder → ∃ order, getorder n = .ok order ∧
        ((∃ page z b', allocPages n s.buddy = .ok (some page, b') ∧
          ∀ p, page ≤ p → p < page + n → InZone zones z p ∧ s.owner p = none) ∨
        (allocPages n s.buddy = .ok (none, s.buddy) ∧
          ∀ k, order ≤ k → k ≤ maxOrder → s.buddy.freeList k = [])) := by
  obtain ⟨s, hrun, h⟩ := run_inv ops (initSystem_inv hinit) hops
  have hfree : ∀ p, p ∉ s.owned ↔ s.owner p = none := fun p => not_not
  refine ⟨s, hrun, h.inv.nodup, ?_, fun q k hq => ⟨(h.inv.free hq).1, (h.inv.free hq).2.1⟩, ?_,
    fun z zone q k hz hin hq hk hin' => h.inv.maximal hq hk hz hin hin', ?_, ?_⟩
  · intro q k q' k' hq hq' hne
    refine Set.disjoint_left.mpr fun p hp hp' => hne ?_
    obtain ⟨rfl, rfl⟩ := h.inv.disjoint hq hq' hp hp'
    rfl
  · intro p
    rw [h.inv.free_iff, hfree]
  · rw [nrFreePages_eq h.inv]
    simp only [hfree]
  · intro n hpos hn
    obtain ⟨order, hgo, hnone | ⟨page, z, b', halloc, hz, hdisj, -⟩⟩ :=
      allocPages_spec h.inv hpos hn
    · exact ⟨order, hgo, .inr hnone⟩
    · refine ⟨order, hgo, .inl ⟨page, z, b', halloc, fun p hlo hhi => ⟨hz p ⟨hlo, hhi⟩, ?_⟩⟩⟩
      grind

/-- One zone of nine pages; three of them are allocated, and the one in the middle is freed. -/
theorem buddy_allocator_correct_ninePages :
    ∃ b₀ s, initZones [(2, 9)] (buddyInit 16 fun _ => ⟨0, 0, 0, 0⟩) = .ok b₀ ∧
      run ⟨b₀, fun _ => none, 0⟩ [.alloc 3, .free 3 1] = .ok s ∧
      nrFreePages s.buddy = {p | (∃ z, InZone [(2, 9)] z p) ∧ s.owner p = none}.ncard := by
  have hcorrect := buddy_allocator_correct 16 (fun _ => ⟨0, 0, 0, 0⟩) [(2, 9)] _ rfl [.alloc 3, .free 3 1]
  obtain ⟨s, hrun, -, -, -, -, -, hcount, -⟩ := hcorrect (by
    refine ⟨⟨by decide, by decide⟩, fun s' r hstep => ⟨⟨by decide, 0, ?_⟩, fun _ _ _ => trivial⟩⟩
    obtain rfl : r = some 2 :=
      Except.ok.inj ((congrArg (Except.map Prod.snd) hstep).symm.trans (by decide +kernel))
    exact fun p hlo hhi => owner_of_alloc hstep (by omega) (by omega))
  exact ⟨_, s, rfl, hrun, hcount⟩

/-! ### Allocations that fail -/

variable {q k j x : ℕ}

/-- A block that meets a smaller one begins there or before. -/
lemma IsBlock.le_of_mem (h : IsBlock zones z q j) (h' : IsBlock zones z p k) (hkj : k ≤ j) (hx : x ∈ block q j)
    (hx' : x ∈ block p k) : q ≤ p := by
  obtain ⟨zone, hz, hlo, -, hdvd⟩ := h
  obtain ⟨zone', hz', hlo', -, hdvd'⟩ := h'
  obtain rfl : zone = zone' := Option.some.inj (hz.symm.trans hz')
  rw [mem_block] at hx hx'
  have hle := Nat.le_of_lt_add_of_dvd (by omega) ((Nat.pow_dvd_pow 2 hkj).trans hdvd) hdvd'
  omega

/-- A block of which no page is in use begins in a free block of its order or a larger one. -/
lemma Inv.exists_free (h : Inv zones b used) (hk : k ≤ maxOrder) (hblk : IsBlock zones z p k)
    (hfree : ∀ x ∈ block p k, x ∉ used) : ∃ q j, q ∈ b.freeList j ∧ k ≤ j ∧ p ∈ block q j := by
  induction k generalizing p with
  | zero =>
    obtain ⟨j, q, hq, hp⟩ := h.free_iff.mpr ⟨⟨z, hblk.inZone (self_mem_block p 0)⟩, hfree p (self_mem_block p 0)⟩
    exact ⟨q, j, hq, Nat.zero_le j, hp⟩
  | succ k ih =>
    obtain ⟨zone, hz, hlo, hhi, hdvd⟩ := id hblk
    have hpow : 2 ^ (k + 1) = 2 ^ k + 2 ^ k := by rw [pow_succ, mul_two]
    have hhalf : 2 ^ k ∣ p - zone.1 := (Nat.pow_dvd_pow 2 k.le_succ).trans hdvd
    have hupper : p + 2 ^ k ∈ block p (k + 1) := by
      have := Nat.two_pow_pos k
      rw [mem_block]
      omega
    have hblk₁ : IsBlock zones z p k := ⟨zone, hz, hlo, by omega, hhalf⟩
    have hblk₂ : IsBlock zones z (p + 2 ^ k) k :=
      ⟨zone, hz, by omega, by omega, Nat.sub_add_comm hlo ▸ hhalf.add dvd_rfl⟩
    -- both halves begin in free blocks; if these are no larger, they are the halves, and would have been merged
    obtain ⟨q₁, j₁, hq₁, hj₁, hp₁⟩ := ih (by omega) hblk₁ fun x hx => hfree x (by rw [mem_block] at hx ⊢; omega)
    obtain ⟨q₂, j₂, hq₂, hj₂, hp₂⟩ := ih (by omega) hblk₂ fun x hx => hfree x (by rw [mem_block] at hx ⊢; omega)
    obtain ⟨-, ⟨z₁, hfree₁⟩, -⟩ := h.free hq₁
    obtain ⟨-, ⟨z₂, hfree₂⟩, -⟩ := h.free hq₂
    obtain rfl := h.zone_unique (hblk.inZone (self_mem_block p _)) (hfree₁.inZone hp₁)
    obtain rfl := h.zone_unique (hblk.inZone hupper) (hfree₂.inZone hp₂)
    obtain hlt₁ | rfl := hj₁.lt_or_eq
    · exact ⟨q₁, j₁, hq₁, hlt₁, hp₁⟩
    obtain hlt₂ | rfl := hj₂.lt_or_eq
    · have hle := hfree₂.le_of_mem hblk hlt₂ hp₂ hupper
      refine ⟨q₂, j₂, hq₂, hlt₂, ?_⟩
      rw [mem_block] at hp₂ ⊢
      omega
    · obtain rfl : q₁ = p := le_antisymm (mem_block.mp hp₁).1 (hblk₁.le_of_mem hfree₁ le_rfl (self_mem_block p k) hp₁)
      obtain rfl : q₂ = q₁ + 2 ^ k :=
        le_antisymm (mem_block.mp hp₂).1 (hblk₂.le_of_mem hfree₂ le_rfl (self_mem_block _ k) hp₂)
      have hbuddy : buddyOf zone.1 q₁ k = q₁ + 2 ^ k := by
        rw [buddyOf, xor_of_dvd_succ hdvd]
        omega
      refine absurd hq₂ (hbuddy ▸ h.maximal hq₁ (by omega) hz (hblk₁.inZone (self_mem_block _ k)) ?_)
      rw [hbuddy]
      exact hblk₂.inZone (self_mem_block _ k)

/-- The buddy allocator keeps nothing back: after every run an allocation fails only if every aligned block of
its order, the smallest one that is large enough, has a page in use. -/
theorem buddy_allocator_complete (npage : ℕ) (pages : ℕ → Page) (zones : List (ℕ × ℕ)) (b₀ : Buddy)
    (hinit : initZones zones (buddyInit npage pages) = .ok b₀) (ops : List Op)
    (hops : AllAllowed ⟨b₀, fun _ => none, 0⟩ ops) (n : ℕ) (hpos : 0 < n) (hn : n ≤ 2 ^ maxOrder) :
    ∃ s order, run ⟨b₀, fun _ => none, 0⟩ ops = .ok s ∧ n ≤ 2 ^ order ∧ (∀ k < order, 2 ^ k < n) ∧
      (allocPages n s.buddy = .ok (none, s.buddy) ↔
        ∀ z p, IsBlock zones z p order → ∃ x ∈ block p order, s.owner x ≠ none) := by
  obtain ⟨s, hrun, h⟩ := run_inv ops (initSystem_inv hinit) hops
  obtain ⟨order, hgo, hle, hlarge, hleast⟩ :=
    getorderLoop_spec (maxOrder + 1) 0 (zero_add _) hn fun k hk => absurd hk (Nat.not_lt_zero k)
  refine ⟨s, order, hrun, hlarge, hleast, ?_⟩
  rw [allocPages, if_pos hpos, getorder, hgo, ok_bind, allocPagesSub, if_pos hle, ok_bind]
  obtain ⟨halloc, hempty⟩ | ⟨page, z, b', halloc, hblk, hdisj, -⟩ :=
    allocLoop_spec (maxOrder + 1 - order) order h.inv le_rfl (by omega)
  · rw [halloc]
    refine iff_of_true rfl fun z p hblk => ?_
    by_contra hunused
    push Not at hunused
    obtain ⟨q, j, hq, hj, -⟩ := h.inv.exists_free hle hblk fun x hx => not_not.mpr (hunused x hx)
    rw [hempty j hj (h.inv.free hq).1] at hq
    cases hq
  · refine iff_of_false (fun hnone => ?_) fun hall => ?_
    · rw [halloc] at hnone
      dsimp only at hnone
      split_ifs at hnone
      · obtain ⟨b'', -, hpage⟩ := bind_eq_ok_iff.mp hnone
        cases hpage
      · cases hnone
    · obtain ⟨x, hx, hused⟩ := hall z page hblk
      exact Set.disjoint_left.mp hdisj hx hused

/-- A zone of nine pages, of which three are in use: what four more pages need. -/
theorem buddy_allocator_complete_ninePages : ∃ b₀ s order,
    initZones [(2, 9)] (buddyInit 16 fun _ => ⟨0, 0, 0, 0⟩) = .ok b₀ ∧
      run ⟨b₀, fun _ => none, 0⟩ [.alloc 3] = .ok s ∧ (allocPages 4 s.buddy = .ok (none, s.buddy) ↔
        ∀ z p, IsBlock [(2, 9)] z p order → ∃ x ∈ block p order, s.owner x ≠ none) := by
  obtain ⟨s, order, hrun, -, -, hfails⟩ := buddy_allocator_complete 16 (fun _ => ⟨0, 0, 0, 0⟩) [(2, 9)] _ rfl
    [.alloc 3] ⟨⟨by decide, by decide⟩, fun _ _ _ => trivial⟩ 4 (by decide) (by decide)
  exact ⟨_, s, order, rfl, hrun, hfails⟩

end UcoreKernel.Pmm
