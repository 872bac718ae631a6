import UcoreKernel.Fs.Sfs.Volume
import UcoreKernel.Fs.Sfs.FileSpec

/-!
The entries of one directory.

Slot `i` of a directory is its block `i`, of which the entry takes the first bytes.
-/

namespace UcoreKernel.Sfs

open ByteBlock PointerTree Function Dirent

variable {fs fs' : Fs} {din din' : Din} {sin sin' : Sin} {p : Pos} {i j slot index : ℕ}

/-! ### The slots of a directory -/

/-- An entry depends on its own bytes. -/
lemma Dirent.ofBlock_congr {b c : Block} (h : ∀ k < direntSize, b k = c k) : ofBlock b = ofBlock c := by
  have hread : ∀ off len, off + len ≤ direntSize → read b off len = read c off len := by
    intro off len hle
    refine List.map_congr_left fun k hk => h _ ?_
    rw [List.mem_range] at hk
    omega
  rw [ofBlock, ofBlock, word, word, hread (4 * 0) 4 (by decide), hread 4 Name.maxFnameLen (by decide)]

/-- The buffer that an entry is read into. -/
lemma Dirent.ofBlock_read (b : Block) : ofBlock (write zero 0 (read b 0 direntSize)) = ofBlock b :=
  ofBlock_congr fun _ hk => write_read b zero hk

/-- The entry in a slot. -/
def direntAt (c : Block) (i : ℕ) : Dirent := .ofBlock fun k => c (i * blkSize + k)

/-- The entries of a directory, by their slots. -/
def entries (fs : Fs) (din : Din) (i : ℕ) : Option (Name × ℕ) :=
  if i < din.blocks ∧ (direntAt (content fs din) i).ino ≠ 0 then
    some ((direntAt (content fs din) i).name, (direntAt (content fs din) i).ino)
  else none

/-- The bytes of one block. -/
lemma content_block (hpos : Pos.ofIndex index = some p) (hp : ptrs fs din p ≠ 0) {k : ℕ}
    (hk : k < blkSize) : content fs din (index * blkSize + k) = fs.disk (ptrs fs din p) k := by
  grind [blkSize, content]

/-- The entry in a slot is in the block of that slot. -/
lemma direntAt_content (hpos : Pos.ofIndex i = some p) (hp : ptrs fs din p ≠ 0) :
    direntAt (content fs din) i = .ofBlock (fs.disk (ptrs fs din p)) :=
  ofBlock_congr fun k hk => content_block hpos hp (hk.trans (by decide))

/-- The entries depend on the content and the number of blocks. -/
lemma entries_congr (hcontent : content fs' din' = content fs din) (hblocks : din'.blocks = din.blocks) :
    entries fs' din' = entries fs din := by
  funext i
  rw [entries, entries, hcontent, hblocks]

lemma entries_eq_none_of_le (h : din.blocks ≤ i) : entries fs din i = none :=
  if_neg fun hi => absurd hi.1 (by omega)

lemma lt_blocks_of_entries {e : Name × ℕ} (h : entries fs din i = some e) : i < din.blocks := by
  by_contra hge
  rw [entries_eq_none_of_le (by omega)] at h
  cases h

variable {e : Dirent}

/-- A write into one slot changes that one. -/
lemma direntAt_write {c : Block} (he : e.Fits) : direntAt (write c (slot * blkSize) e.toBytes) i =
      if i = slot then e else direntAt c i := by
  have hlen : e.toBytes.length = direntSize := length_toBytes he.name
  have hle : direntSize ≤ blkSize := by decide
  obtain rfl | hi := eq_or_ne i slot
  · rw [if_pos rfl]
    refine Eq.trans (ofBlock_congr fun k hk => ?_) (ofBlock_write he zero)
    grind [write_add]
  · rw [if_neg hi]
    refine ofBlock_congr fun k hk => ?_
    -- the two slots are in different blocks
    obtain hlt | hgt := Nat.lt_or_gt_of_ne hi
    · grind [blkSize, write_of_lt]
    · grind [blkSize, write_of_ge]

/-! ### Reading -/

/-- Reading an entry changes nothing. -/
lemma direntRead_spec (h : Mapped fs sin) (hdir : sin.din.type = .dir) (hi : i < sin.din.blocks) :
    direntRead fs sin i = .ok (fs, sin, some (direntAt (content fs sin.din) i)) := by
  obtain ⟨p, hpos, hp⟩ := h.mapped i hi
  have hused := h.held.used p hp
  rw [direntRead, if_pos ⟨hdir, hi⟩, bmapLoad_find h.held hpos hi hp, ok_bind]
  dsimp only
  rw [Fs.assertInuse_of_used hused, ok_bind,
    Fs.rbuf_of_used hused (by decide) (by decide), ok_bind,
    ofBlock_read, direntAt_content hpos hp]
  rfl

/-- What the search returns: the slot of the name, or an empty slot if the name is not there. -/
def Searched (entry : ℕ → Option (Name × ℕ)) (blocks : ℕ) (name : Name) : Search → Prop
  | .failed _ => True
  | .found slot ino => entry slot = some (name, ino)
  | .missing slot => slot ≤ blocks ∧ entry slot = none ∧ ∀ i ino, entry i ≠ some (name, ino)

variable {name : Name}

lemma searchLoop_spec (h : Mapped fs sin) (hdir : sin.din.type = .dir) {left : ℕ}
    (hleft : i + left = sin.din.blocks) (hslot : slot ≤ sin.din.blocks)
    (hempty : entries fs sin.din slot = none)
    (hseen : ∀ j < i, ∀ ino, entries fs sin.din j ≠ some (name, ino)) :
    ∃ result, searchLoop name left fs sin i slot = .ok (fs, sin, result) ∧
      Searched (entries fs sin.din) sin.din.blocks name result := by
  induction left generalizing i slot with
  | zero =>
    refine ⟨.missing slot, rfl, hslot, hempty, fun j ino hj => ?_⟩
    grind [lt_blocks_of_entries]
  | succ left ih =>
    have hi : i < sin.din.blocks := by omega
    rw [searchLoop, direntRead_spec h hdir hi, ok_bind]
    dsimp only
    by_cases hino : (direntAt (content fs sin.din) i).ino = 0
    · have hnone : entries fs sin.din i = none := if_neg fun hne => hne.2 hino
      rw [if_pos hino]
      refine ih (by omega) hi.le hnone fun j hj ino => ?_
      obtain hj | rfl := Nat.lt_succ_iff_lt_or_eq.mp hj
      · exact hseen j hj ino
      · rw [hnone]
        exact nofun
    · have hsome : entries fs sin.din i = some ((direntAt (content fs sin.din) i).name,
          (direntAt (content fs sin.din) i).ino) := if_pos ⟨hi, hino⟩
      rw [if_neg hino]
      split_ifs with hname
      · refine ⟨_, rfl, ?_⟩
        rw [Searched, hsome, hname]
      · refine ih (by omega) hslot hempty fun j hj ino => ?_
        obtain hj | rfl := Nat.lt_succ_iff_lt_or_eq.mp hj
        · exact hseen j hj ino
        · grind

/-- The search changes nothing. -/
lemma direntSearch_spec (mem : Bool) (h : Mapped fs sin) (hdir : sin.din.type = .dir)
    (hname : name.strlen ≤ Name.maxFnameLen) : ∃ result, direntSearch mem fs sin name = .ok (fs, sin, result) ∧
      Searched (entries fs sin.din) sin.din.blocks name result := by
  rw [direntSearch, if_neg (by omega)]
  cases mem with
  | false => exact ⟨.failed .noMem, rfl, trivial⟩
  | true =>
    rw [if_neg (by decide)]
    exact searchLoop_spec h hdir (zero_add _) le_rfl (entries_eq_none_of_le le_rfl)
      fun j hj => absurd hj (Nat.not_lt_zero j)

/-! ### Writing -/

/-- What an entry is in a listing. -/
def Dirent.listed (e : Dirent) : Option (Name × ℕ) := if e.ino = 0 then none else some (e.name, e.ino)

/-- What a write leaves behind: the entry is in its slot, or there was no space. -/
structure Wrote (fs : Fs) (sin : Sin) (slot : ℕ) (e : Dirent) (fs' : Fs) (sin' : Sin)
    (err : Option Errno) : Prop where
  mapped : Mapped fs' sin'
  remapped : Remapped fs sin fs' sin'
  unused : fs.unusedBlocks ≤ fs'.unusedBlocks + 3
  ended : (err = none ∧ sin'.din.blocks = max sin.din.blocks (slot + 1) ∧
      entries fs' sin'.din = update (entries fs sin.din) slot e.listed) ∨
    (err = some .noMem ∧ sin'.din.blocks = sin.din.blocks ∧
      entries fs' sin'.din = entries fs sin.din)

/-- The entries after a block has been made and written. -/
lemma entries_write (he : e.Fits) (hslot : slot ≤ din.blocks)
    (hblocks : din'.blocks = max din.blocks (slot + 1))
    (hcontent : content fs' din' = write (content fs din) (slot * blkSize) e.toBytes) :
    entries fs' din' = update (entries fs din) slot e.listed := by
  funext i
  rw [entries, hcontent, direntAt_write he]
  obtain rfl | hi := eq_or_ne i slot
  · rw [update_self, if_pos rfl, listed]
    by_cases hino : e.ino = 0
    · rw [if_pos hino, if_neg fun hne => hne.2 hino]
    · rw [if_neg hino, if_pos ⟨by omega, hino⟩]
  · grind [entries]

/-- A slot that no position has. -/
lemma bmapLoad_beyond (hpos : Pos.ofIndex sin.din.blocks = none) :
    bmapLoad fs sin sin.din.blocks = .error .nentry := by
  unfold Pos.ofIndex at hpos
  split_ifs at hpos with hdirect hind hdb
  rw [bmapLoad, if_neg (lt_irrefl _)]
  dsimp only
  rw [bmapGet, dif_neg hdirect, if_neg hind, bmapGetDbIndirect, bmapGetSub, if_pos (not_lt.mp hdb)]
  rfl

/-- A write changes one slot, or nothing if there is no space. -/
lemma direntWrite_spec (mem : Bool) (h : Mapped fs sin) (hdir : sin.din.type = .dir)
    (hslot : slot ≤ sin.din.blocks) (he : e.Fits) :
    Except.Ensures (· = .nentry) (direntWrite mem fs sin slot e) fun r =>
      Wrote fs sin slot e r.1 r.2.1 r.2.2 := by
  rw [direntWrite, if_pos ⟨hdir, hslot⟩]
  cases mem with
  | false =>
    exact ⟨h, Remapped.refl h, Nat.le_add_right _ _, .inr ⟨rfl, rfl, rfl⟩⟩
  | true =>
    have hname := he.name
    rw [if_neg (by decide), if_neg (by omega)]
    cases hpos : Pos.ofIndex slot with
    | none =>
      -- below the number of blocks every slot has a position
      have hlast : slot = sin.din.blocks := by
        by_contra hne
        obtain ⟨p, hp, -⟩ := h.mapped slot (by omega)
        rw [hpos] at hp
        cases hp
      subst hlast
      rw [bmapLoad_beyond hpos]
      rfl
    | some p =>
      obtain ⟨fs1, sin1, h1, hremapped, hcontent, hunused, hresult⟩ := h.load hslot hpos
      obtain ⟨hload, -, hblocks, -⟩ | ⟨hload, hp, hblocks⟩ := hresult
      · rw [hload, ok_bind]
        exact ⟨h1, hremapped, hunused, .inr ⟨rfl, hblocks, entries_congr hcontent hblocks⟩⟩
      · have hused := h1.held.used p hp
        have hlen : e.toBytes.length = direntSize := length_toBytes he.name
        have hsize : 0 + e.toBytes.length ≤ blkSize := by rw [hlen]; decide
        have hleaf := Pos.leaf_of_ofIndex hpos
        have hkept := Kept.setBlock h1.ok h1.held hleaf (write (fs1.disk (ptrs fs1 sin1.din p)) 0 e.toBytes)
        rw [hload, ok_bind]
        dsimp only
        rw [Fs.assertInuse_of_used hused, ok_bind, Fs.wbuf_of_used hused _ (by decide) hsize, ok_bind]
        refine ⟨⟨hkept.ok, hkept.held, ?_⟩, hremapped.trans ⟨⟨hkept, rfl, fun hclean =>
          ⟨hclean, le_rfl, rfl⟩⟩, rfl⟩, hunused, .inl ⟨rfl, hblocks, ?_⟩⟩
        · rw [ptrs_setBlock h1.held hleaf]
          exact h1.mapped
        · refine entries_write he hslot hblocks ?_
          dsimp only
          rw [content_setBlock h1.held hpos hp hsize, hcontent, add_zero]

end UcoreKernel.Sfs
