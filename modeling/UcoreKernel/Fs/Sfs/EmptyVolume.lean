import UcoreKernel.Fs.Sfs.Runs

/-!
The volume that has just been made and mounted: an empty root directory, and behind it the freemap.
-/

namespace UcoreKernel.Sfs

open ByteBlock PointerTree Tally Finset

/-- The root directory of an empty volume. -/
def rootDin : Din where
  size := 0
  parent := blknRoot
  type := .dir
  nlinks := 2
  blocks := 0
  direct _ := 0
  indirect := 0
  dbIndirect := 0

/-- `sfs_freemap_blocks`, for a volume of a given size. -/
def freemapBlocks (blocks : ℕ) : ℕ := (blocks + blkBits - 1) / blkBits

/-- The first block behind the freemap. -/
def firstBlock (blocks : ℕ) : ℕ := blknRoot + 1 + freemapBlocks blocks

/-- A volume with an empty root directory. No inode is in memory yet. -/
def emptyVol (blocks : ℕ) : Vol where
  fs :=
    { blocks := blocks
      unusedBlocks := blocks - firstBlock blocks
      superDirty := false
      free := fun b => decide (firstBlock blocks ≤ b ∧ b < blocks)
      disk := Function.update (fun _ => zero) blknRoot (setWords zero rootDin.toWords) }
  cache _ := none
  inodes := {blknRoot}

variable {blocks : ℕ}

lemma rootDin_fits : rootDin.Fits := by
  have hpos : 0 < 2 ^ 32 := by norm_num
  exact ⟨hpos, by decide, hpos, fun _ => hpos, hpos, hpos⟩

lemma emptyVol_din (blocks : ℕ) : (emptyVol blocks).din blknRoot = rootDin := by
  have hdisk : (emptyVol blocks).fs.disk blknRoot = setWords zero rootDin.toWords := by
    simp [emptyVol]
  rw [Vol.din_of_none rfl, hdisk, Din.ofBlock_setWords rootDin_fits]

lemma ptrs_rootDin (fs : Fs) (p : Pos) : ptrs fs rootDin p = 0 := by
  cases p <;> simp [ptrs, Fs.sub, rootDin]

/-- The free blocks are those behind the freemap. -/
lemma emptyVol_ok (hle : blocks ≤ 2 ^ 32) : FsOk (emptyVol blocks).fs := by
  have hbits := (emptyVol blocks).fs.le_freemapBits
  refine ⟨hle, fun b hb => ?_, ?_⟩
  · have hrange : firstBlock blocks ≤ b ∧ b < blocks := of_decide_eq_true hb
    refine ⟨?_, hrange.2⟩
    rintro rfl
    exact absurd hrange.1 (by simp [firstBlock])
  · have hfree : (range (emptyVol blocks).fs.freemapBits).filter ((emptyVol blocks).fs.free ·) =
        Finset.Ico (firstBlock blocks) blocks := by
      ext b
      change blocks ≤ _ at hbits
      rw [mem_filter, mem_range, mem_Ico]
      change _ ∧ decide (firstBlock blocks ≤ b ∧ b < blocks) = true ↔ _
      grind
    rw [Fs.freeBits, hfree, Nat.card_Ico]
    rfl

/-- The only place with a block is the root directory itself. -/
lemma emptyVol_place {x : ℕ × Option Pos} (hne : (emptyVol blocks).place x ≠ 0) :
    x = (blknRoot, none) ∧ (emptyVol blocks).place x = blknRoot := by
  obtain ⟨n, pos⟩ := x
  by_cases hn : n ∈ (emptyVol blocks).inodes
  · obtain rfl := mem_singleton.mp hn
    cases pos with
    | none => exact ⟨rfl, Vol.place_inode hn⟩
    | some p =>
      rw [Vol.place_pos hn, emptyVol_din, ptrs_rootDin] at hne
      exact absurd rfl hne
  · exact absurd (if_neg hn) hne

lemma emptyVol_sound (hlarge : firstBlock blocks ≤ blocks) (hle : blocks ≤ 2 ^ 32) :
    (emptyVol blocks).Sound := by
  have hroot : blknRoot < firstBlock blocks := by
    rw [firstBlock]
    omega
  have hused : (emptyVol blocks).fs.Used blknRoot := by
    refine ⟨by decide, hroot.trans_le hlarge, ?_⟩
    change decide (firstBlock blocks ≤ blknRoot ∧ _) = false
    grind
  have hshaped : Shaped (emptyVol blocks).fs rootDin :=
    ⟨fun i hi => absurd hi (Nat.not_lt_zero i), rootDin_fits, .inl rfl, nofun⟩
  refine ⟨emptyVol_ok hle, fun h0 => absurd (mem_singleton.mp h0) (by decide),
    ⟨fun x hx => ?_, fun x y hx heq => ?_⟩, fun n hn => ?_, nofun, nofun,
    fun n hn _ => ?_⟩
  · rw [(emptyVol_place hx).2]
    exact hused
  · grind [emptyVol_place]
  · obtain rfl := mem_singleton.mp hn
    rw [emptyVol_din]
    exact hshaped
  · obtain rfl := mem_singleton.mp hn
    rw [emptyVol_din]
    decide

lemma emptyVol_entry (x : ℕ × ℕ) : (emptyVol blocks).tree.entry x = none := by
  obtain ⟨d, i⟩ := x
  refine ite_eq_right_iff.mpr fun hd => ?_
  obtain rfl := mem_singleton.mp hd.1
  rw [emptyVol_din]
  exact entries_eq_none_of_le (Nat.zero_le i)

lemma emptyVol_kind (n : ℕ) : (emptyVol blocks).tree.kind n = if n = blknRoot then some .dir else none := by
  obtain rfl | hn := eq_or_ne n blknRoot
  · rw [if_pos rfl, Vol.tree_kind (mem_singleton_self _), emptyVol_din]
    rfl
  · rw [if_neg hn]
    exact if_neg fun hmem => hn (mem_singleton.mp hmem)

lemma emptyVol_names : (emptyVol blocks).tree.Ok := by
  have hrefs : ∀ n, (emptyVol blocks).tree.refs n = 0 := fun n => tally_eq_zero fun x hx => by
    rw [emptyVol_entry] at hx
    cases hx
  have hsub : ∀ n, (emptyVol blocks).tree.subdirs n = 0 := fun n => tally_eq_zero fun x hx => by
    have hbind := hx.2
    rw [emptyVol_entry] at hbind
    cases hbind
  refine ⟨⟨?_, ?_, ⟨?_, rfl⟩, by rintro _ ⟨⟩, fun x hx => absurd (emptyVol_entry x) hx, fun x name n hx => ?_,
    fun d i j name m n hi _ => ?_, fun x y a b n _ hx _ => ?_⟩, fun d => ?_, fun n => ?_⟩
  · simp [emptyVol_entry]
  · rw [emptyVol_kind, if_neg (by decide)]
  · rw [emptyVol_kind, if_pos rfl]
  · rw [emptyVol_entry] at hx
    cases hx
  · rw [emptyVol_entry] at hi
    cases hi
  · rw [emptyVol_entry] at hx
    cases hx
  · have hocc : (emptyVol blocks).tree.occupied d = 0 := tally_eq_zero fun x hx => hx.2 (emptyVol_entry x)
    rw [hocc]
    refine ite_eq_right_iff.mpr fun hd => ?_
    obtain rfl := mem_singleton.mp hd.1
    rw [emptyVol_din]
    rfl
  · rw [Tree.Counted, Tree.links, hrefs, hsub, Tree.selfLinks, emptyVol_kind]
    obtain rfl | hn := eq_or_ne n blknRoot
    · rw [if_pos rfl, if_pos ⟨rfl, rfl⟩, if_pos rfl, Vol.tree_nlinks (mem_singleton_self _), emptyVol_din]
      rfl
    · rw [if_neg hn, if_neg (by simp)]
      exact if_neg fun hmem => hn (mem_singleton.mp hmem)

/-- An empty volume is in order. -/
theorem emptyVol_inv (hlarge : firstBlock blocks ≤ blocks) (hle : blocks ≤ 2 ^ 32) : (emptyVol blocks).Inv where
  sound := emptyVol_sound hlarge hle
  names := emptyVol_names
  parents := by
    refine ⟨?_, fun x name n hx => ?_⟩
    · rw [Vol.tree_parent (mem_singleton_self _) (by rw [emptyVol_din]; rfl), emptyVol_din]
      rfl
    · rw [emptyVol_entry] at hx
      cases hx

/-- An empty volume, to begin with. -/
def emptyVolume (blocks : ℕ) (hlarge : firstBlock blocks ≤ blocks) (hle : blocks ≤ 2 ^ 32) : Volume where
  toVol := emptyVol blocks
  inv := emptyVol_inv hlarge hle
  tracked := nofun

/-- A volume of twenty blocks. -/
def twentyBlocks : Volume := emptyVolume 20 (by decide) (by norm_num)

end UcoreKernel.Sfs
