import UcoreKernel.Fs.Sfs.Inodes
import UcoreKernel.Fs.Sfs.Links

/-!
The life of an inode: it is allocated, read into memory, written back and released.
-/

namespace UcoreKernel.Sfs

open ByteBlock PointerTree Function

variable {fs fs' : Fs} {din din' : Din} {sin : Sin} {n m : ℕ} {v v' : Vol} {node : Node}

/-! ### Inodes come into memory and go -/

/-- An inode depends on its own bytes. -/
lemma Din.ofBlock_read (b : Block) : Din.ofBlock (write zero 0 (read b 0 dinSize)) = Din.ofBlock b := by
  have hword : ∀ i < 18, word (write zero 0 (read b 0 dinSize)) i = word b i := by
    intro i hi
    have hread : read (write zero 0 (read b 0 dinSize)) (4 * i) 4 = read b (4 * i) 4 := by
      refine List.map_congr_left fun k hk => write_read b zero ?_
      rw [List.mem_range] at hk
      unfold dinSize
      omega
    rw [word, word, hread]
  grind [ndirect, Din.ofBlock]

namespace Vol

/-- The number of references to an inode. -/
def refs (v : Vol) (n : ℕ) : ℕ := ((v.cache n).map Node.ref).getD 0

/-- There is one more reference to an inode, which is in memory. -/
structure Loaded (v : Vol) (n : ℕ) (v' : Vol) : Prop extends v.Follows v' where
  sound : v'.Sound
  tree : v'.tree = v.tree
  status : v'.status n = some (v.removed n, v.refs n + 1, 1)
  others : ∀ m, m ≠ n → v'.status m = v.status m
  same : ∀ m, (v.cache m).isSome = true → v'.din m = v.din m

variable {o : Option Node}

lemma status_setNode_of_ne (hm : m ≠ n) : (v.setNode n o).status m = v.status m := by
  have hcache : (v.setNode n o).cache m = v.cache m := update_of_ne hm ..
  rw [status, status, hcache]

lemma status_setNode_self (v : Vol) (n : ℕ) (node : Node) :
    (v.setNode n (some node)).status n = some (node.removed, node.ref, node.reclaimCount) := by
  have hcache : (v.setNode n (some node)).cache n = some node := update_self ..
  rw [status, hcache]
  rfl

/-- The inode keeps its mark. -/
lemma setRecord_of_cache (hcache : v.cache n = some node) :
    v.tree.setRecord n { v.tree.record n with removed := node.removed } = v.tree := by
  rw [← removed_of_cache hcache]
  exact Tree.setRecord_self ..

/-- An inode on disk is read. -/
lemma Sound.readInode (h : v.Sound) (hn : n ∈ v.inodes) (hnone : v.cache n = none) (mem₁ mem₂ : Bool) :
    (∃ v', v.readInode mem₁ mem₂ n = .ok (v', none) ∧ v.Loaded n v') ∨
      v.readInode mem₁ mem₂ n = .ok (v, some .noMem) := by
  have hused := h.used hn
  have hdin := din_of_none hnone
  have hlinks := h.linked n hn hnone
  have hshaped := h.shaped n hn
  have hops : getOps (v.din n).type = .ok () := if_pos hshaped.type
  have hread : v.fs.rbuf n dinSize 0 = .ok (read (v.fs.disk n) 0 dinSize) :=
    Fs.rbuf_of_used hused (by decide) (by decide)
  rw [Vol.readInode]
  cases mem₁ with
  | false => exact .inr rfl
  | true =>
    rw [if_neg (by decide), Fs.assertInuse_of_used hused, ok_bind, hread, ok_bind]
    rw [Din.ofBlock_read, ← hdin, if_neg hlinks]
    cases mem₂ with
    | false => exact .inr rfl
    | true =>
      rw [if_neg (by decide), hops]
      refine .inl ⟨v.setNode n (some ⟨⟨v.din n, false⟩, false, 1, 1⟩), rfl, ?_⟩
      have hkept : Kept v.fs (v.din n) v.fs (v.din n) := Kept.refl h.ok (h.held hn)
      have hremoved : v.removed n = false := by
        rw [removed, hnone]
        rfl
      have hrefs : v.refs n = 0 := by
        rw [refs, hnone]
        rfl
      have hback : Backed (.ofBlock (v.fs.disk n)) (v.din n) := by
        refine ⟨(v.din n).blocks, le_rfl, ?_, fun _ => rfl, hshaped.size⟩
        rw [← hdin]
      obtain ⟨hsound, htree⟩ := h.replace hn ⟨⟨v.din n, false⟩, false, 1, 1⟩ hkept hshaped
        ⟨Nat.one_pos, rfl⟩ fun _ _ => hback
      refine ⟨⟨rfl, h.tracked_replace hn _ hkept fun _ _ _ => hdin⟩, hsound, ?_, ?_,
        fun m hm => status_setNode_of_ne hm, fun m hm => ?_⟩
      · have hrecord := record_eq hn
        rw [hremoved] at hrecord
        refine htree.trans ?_
        rw [← hrecord, Tree.setRecord_self]
      · rw [status_setNode_self, hremoved, hrefs]
      · have hmn : m ≠ n := by grind
        exact din_congr (update_of_ne hmn ..) hm

lemma Sound.loadInode (h : v.Sound) (hn : n ∈ v.inodes) (mem₁ mem₂ : Bool) :
    (∃ v', v.loadInode mem₁ mem₂ n = .ok (v', none) ∧ v.Loaded n v') ∨
      v.loadInode mem₁ mem₂ n = .ok (v, some .noMem) := by
  rw [Vol.loadInode]
  cases hcache : v.cache n with
  | none => exact h.readInode hn hcache mem₁ mem₂
  | some node =>
    obtain ⟨-, hpos, hcount⟩ := h.cached n node hcache
    have hrefs : v.refs n = node.ref := by
      rw [refs, hcache]
      rfl
    dsimp only
    rw [if_neg hpos.ne', hcount]
    refine .inl ⟨_, rfl, ?_⟩
    obtain ⟨hsound, htree, hfollows⟩ := h.setNode hcache ⟨node.sin, node.removed, node.ref + 1, 1⟩ rfl
      ⟨Nat.succ_pos _, rfl⟩
    refine ⟨hfollows, hsound, ?_, ?_, fun m hm => status_setNode_of_ne hm, fun m hm => ?_⟩
    · have hsame := setRecord_of_cache hcache
      exact htree.trans hsame
    · rw [status_setNode_self, hrefs, removed_of_cache hcache]
    · obtain rfl | hmn := eq_or_ne m n
      · rw [din_of_cache hcache, setNode_eq, replace_din]
      · exact din_congr (update_of_ne hmn ..) hm

/-- The block of an inode is written, and the inode in memory is replaced or goes. -/
def rewrite (v : Vol) (n : ℕ) (b : Block) (o : Option Node) : Vol where
  fs := v.fs.setBlock n b
  cache := update v.cache n o
  inodes := v.inodes

@[simp] lemma rewrite_cache_self (v : Vol) (n : ℕ) (b : Block) (o : Option Node) :
    (v.rewrite n b o).cache n = o := update_self ..

@[simp] lemma rewrite_disk_self (v : Vol) (n : ℕ) (b : Block) (o : Option Node) :
    (v.rewrite n b o).fs.disk n = b := update_self ..

lemma rewrite_disk_of_ne {b : Block} (hm : m ≠ n) :
    (v.rewrite n b o).fs.disk m = v.fs.disk m := update_of_ne hm ..

variable {x : ℕ × Option Pos}

section

variable (h : v.Sound) (hn : n ∈ v.inodes)
include h hn

/-- The block of an inode is not at the places of others. -/
lemma Sound.place_ne (hx : x.1 ≠ n) (hne : v.place x ≠ 0) : v.place x ≠ n := by
  intro heq
  have hinj := h.owns.inj x (n, none) hne
  grind [place_inode]

variable (b : Block) (o : Option Node)

lemma Sound.frame_rewrite : v.Frame n (v.rewrite n b o) where
  ok := h.ok.setBlock n b
  inodes _ _ := Iff.rfl
  cache _ hm := update_of_ne hm ..
  keep x hx hne := ⟨h.owns.used x hne, rewrite_disk_of_ne (h.place_ne hn hx hne)⟩

/-- What is then found under the number of the inode may have fewer blocks, if it is a file. -/
lemma Sound.rewrite (hdin : Backed ((v.rewrite n b o).din n) (v.din n))
    (hcount : ∀ node, o = some node → 0 < node.ref ∧ node.reclaimCount = 1)
    (hbacked : ∀ node, o = some node → node.sin.dirty = false → node.sin.din.nlinks ≠ 0 →
      Backed (.ofBlock b) node.sin.din) (hlinked : o = none → (v.din n).nlinks ≠ 0) :
    (v.rewrite n b o).Sound ∧ (v.rewrite n b o).tree =
      v.tree.setRecord n { v.tree.record n with removed := (o.map Node.removed).getD false } := by
  have hframe := h.frame_rewrite hn b o
  have hshaped := h.shaped n hn
  obtain ⟨k, hk, hdin, hdir, hfile⟩ := hdin
  have hdisk : ∀ p, ptrs v.fs (v.din n) p ≠ 0 →
      (v.rewrite n b o).fs.disk (ptrs v.fs (v.din n) p) = v.fs.disk (ptrs v.fs (v.din n) p) :=
    fun p _ => rewrite_disk_of_ne (h.ptrs_ne_inode hn hn p)
  have hptrs : ptrs (v.rewrite n b o).fs ((v.rewrite n b o).din n) = ptrs v.fs (v.din n) := by
    rw [hdin]
    exact (ptrs_congr rfl rfl rfl).trans (ptrs_frame hdisk)
  constructor
  · refine hframe.sound h (fun _ => ?_) fun hgone => absurd hn hgone
    refine ⟨h.used hn, ?_, fun p => ?_, fun x hx hne => ⟨(h.place_ne hn hx hne).symm, fun p heq => ?_⟩,
      ⟨fun i hi => ?_, ?_, ?_, ?_⟩, fun node' hnode' => ?_, fun node' hnode' _ _ => ?_,
      fun _ => ?_⟩
    · rw [Held, hptrs]
      exact h.held hn
    · rw [hptrs]
      exact h.ptrs_ne_inode hn hn p
    · rw [hptrs] at heq
      have hinj := h.owns.inj (n, some p) x
      grind [place_pos]
    · rw [hptrs]
      rw [hdin] at hi
      exact hshaped.mapped i (hi.trans_le hk)
    · rw [hdin]
      have hfits := hshaped.fits
      exact ⟨hfits.size, hfits.parent, hk.trans_lt hfits.blocks, hfits.direct, hfits.indirect, hfits.dbIndirect⟩
    · rw [hdin]
      exact hshaped.type
    · rw [hdin]
      exact hfile
    · rw [rewrite_cache_self] at hnode'
      exact hcount node' hnode'
    · grind [rewrite_cache_self, rewrite_disk_self]
    · grind [rewrite_cache_self]
  · have hn' : n ∈ (v.rewrite n b o).inodes := hn
    have hremoved : (v.rewrite n b o).removed n = (o.map Node.removed).getD false := by
      rw [removed, rewrite_cache_self]
    rw [hframe.tree_eq h, record_eq hn', record_eq hn, hremoved, hdin]
    refine congrArg _ (Tree.Record.ext rfl rfl ?_ rfl rfl rfl)
    funext i
    by_cases htype : (v.din n).type = .dir
    · have hentries : entries (v.rewrite n b o).fs { v.din n with blocks := k } = entries v.fs (v.din n) :=
        entries_congr ((content_congr (ptrs_congr rfl rfl rfl)).trans (content_frame hdisk)) (hdir htype)
      exact (if_pos htype).trans ((congrFun hentries i).trans (if_pos htype).symm)
    · exact (if_neg htype).trans (if_neg htype).symm

end

/-- What is written is the inode in memory. -/
lemma writeDin_eq (hused : v.fs.Used n) (hcache : v.cache n = some node) :
    v.writeDin n = .ok (v.rewrite n (setWords (v.fs.disk n) node.sin.din.toWords)
      (some { node with sin := ⟨node.sin.din, false⟩ })) := by
  have hlen : (node.sin.din.toWords.flatMap (leBytes 4)).length = 72 := by
    rw [length_flatMap_leBytes, Din.length_toWords]
  have hwbuf : v.fs.wbuf n (node.sin.din.toWords.flatMap (leBytes 4)) 0 =
      .ok (v.fs.setBlock n (setWords (v.fs.disk n) node.sin.din.toWords)) :=
    Fs.wbuf_of_used hused _ (by decide) (by rw [hlen]; decide)
  rw [Vol.writeDin, din_of_cache hcache, hwbuf, ok_bind, put_eq hcache]
  rfl

/-- An inode is written to its block. -/
lemma Sound.writeDin (h : v.Sound) (hcache : v.cache n = some node) :
    ∃ v', v.writeDin n = .ok v' ∧ v.Turns v.tree v' ∧
      v'.cache n = some { node with sin := ⟨node.sin.din, false⟩ } := by
  have hn := h.mem hcache
  have hdin := din_of_cache hcache
  have hshaped := h.shaped_of_cache hcache
  set node₁ : Node := { node with sin := ⟨node.sin.din, false⟩ }
  set blk := setWords (v.fs.disk n) node.sin.din.toWords with hblk
  have hback : Din.ofBlock blk = node.sin.din := Din.ofBlock_setWords hshaped.fits _
  have hself : Backed node.sin.din node.sin.din := ⟨_, le_rfl, rfl, fun _ => rfl, hshaped.size⟩
  set v' := v.rewrite n blk (some node₁) with hv'
  have hcache' : v'.cache n = some node₁ := rewrite_cache_self ..
  obtain ⟨hsound, htree⟩ := h.rewrite hn blk (some node₁) (by rw [← hv', din_of_cache hcache', hdin]; exact hself)
    (fun node' hnode' => by cases hnode'; exact (h.cached n node hcache).2)
    (fun node' hnode' _ _ => by cases hnode'; rw [hback]; exact hself) nofun
  refine ⟨v', writeDin_eq (h.used hn) hcache, ⟨⟨rfl, fun htracked m node' hnode' hlinks hne => ?_⟩, hsound, ?_,
    fun m => ?_, fun m hm => ?_⟩, hcache'⟩
  · by_cases hm : m = n
    · grind [rewrite_disk_self]
    · rw [hv', (h.frame_rewrite hn _ _).cache m hm] at hnode'
      rw [hv', rewrite_disk_of_ne hm] at hne
      exact htracked m node' hnode' hlinks hne
  · have hsame := setRecord_of_cache hcache
    exact htree.trans hsame
  · obtain rfl | hm := eq_or_ne m n
    · rw [status_of_cache hcache, status_of_cache hcache']
    · rw [status, status, (h.frame_rewrite hn _ _).cache m hm]
  · obtain rfl | hmn := eq_or_ne m n
    · rw [hdin, din_of_cache hcache']
    · rw [din_congr ((h.frame_rewrite hn _ _).cache m hmn) hm]

/-- `sfs_fsync`, with a result that is an error only for an inode that was removed. -/
lemma Sound.fsync (h : v.Sound) (hcache : v.cache n = some node) :
    (∃ v', v.fsync n = .ok (v', none) ∧ v.Turns v.tree v' ∧
      ∃ node', v'.cache n = some node' ∧ node'.sin.din = node.sin.din ∧
        (node.sin.din.nlinks ≠ 0 → node'.sin.dirty = false)) ∨
      (v.fsync n = .ok (v, some .noEnt) ∧ v.removed n = true ∧ node.sin.din.nlinks ≠ 0) := by
  rw [Vol.fsync, din_of_cache hcache, sin_of_cache hcache]
  by_cases hskip : node.sin.din.nlinks = 0 ∨ node.sin.dirty = false
  · grind [Turns.refl]
  · rw [if_neg hskip]
    by_cases hremoved : v.removed n = true
    · grind
    · rw [if_neg hremoved]
      obtain ⟨v', hwrite, hturns, hcache'⟩ := h.writeDin hcache
      rw [hwrite]
      exact .inl ⟨v', rfl, hturns, _, hcache', rfl, fun _ => rfl⟩

/-- What `sfs_reclaim` leaves behind for an inode with links: it has been written, and it is no longer in
memory. -/
lemma evict_eq (hused : v.fs.Used n) (hcache : v.cache n = some node) (hlinks : node.sin.din.nlinks ≠ 0)
    (hremoved : node.removed = false) : v.evict n = .ok (v.rewrite n (if node.sin.dirty = true then
      setWords (v.fs.disk n) node.sin.din.toWords else v.fs.disk n) none) := by
  rw [Vol.evict, Vol.fsync, din_of_cache hcache, sin_of_cache hcache, removed_of_cache hcache, hremoved]
  cases hdirty : node.sin.dirty with
  | false =>
    have hfs : v.fs.setBlock n (v.fs.disk n) = v.fs := by
      rw [Fs.setBlock, update_eq_self]
    rw [if_pos (.inr rfl), if_neg (by decide), Vol.rewrite, hfs]
    rfl
  | true =>
    rw [if_neg (by simpa using hlinks), if_neg (by decide), writeDin_eq hused hcache, if_pos rfl]
    have htwice : (v.rewrite n (setWords (v.fs.disk n) node.sin.din.toWords)
        (some { node with sin := ⟨node.sin.din, false⟩ })).setNode n none =
          v.rewrite n (setWords (v.fs.disk n) node.sin.din.toWords) none := by
      rw [Vol.setNode, Vol.rewrite, update_idem, Vol.rewrite]
    rw [← htwice]
    rfl

/-- The inode of which the last reference goes. -/
def reclaimed (v : Vol) (n : ℕ) (node : Node) : Vol := v.setNode n (some { node with ref := 0, reclaimCount := 0 })

lemma Sound.evict (h : v.Sound) (hcache : v.cache n = some node) (hlinks : node.sin.din.nlinks ≠ 0)
    (hremoved : node.removed = false) :
    ∃ v', (v.reclaimed n node).evict n = .ok v' ∧ v'.Sound ∧ v'.tree = v.tree ∧ v'.cache n = none ∧
      (∀ m, m ≠ n → v'.cache m = v.cache m) ∧ v.Follows v' := by
  have hn := h.mem hcache
  have hdin := din_of_cache hcache
  have hshaped := h.shaped_of_cache hcache
  set b := if node.sin.dirty = true then setWords (v.fs.disk n) node.sin.din.toWords else v.fs.disk n with hb
  have hevict : (v.reclaimed n node).evict n = .ok (v.rewrite n b none) := by
    have hcache' : (v.reclaimed n node).cache n = some { node with ref := 0, reclaimCount := 0 } :=
      update_self ..
    have hused : (v.reclaimed n node).fs.Used n := h.used hn
    rw [evict_eq hused hcache' hlinks hremoved]
    grind [Vol.rewrite, Vol.reclaimed, Vol.setNode, update_idem]
  have hbacked : Backed (.ofBlock b) node.sin.din := by
    cases hdirty : node.sin.dirty with
    | false =>
      rw [hb, hdirty, if_neg (by decide)]
      exact h.backed n node hcache hdirty hlinks
    | true =>
      rw [hb, hdirty, if_pos rfl, Din.ofBlock_setWords hshaped.fits]
      exact ⟨_, le_rfl, rfl, fun _ => rfl, hshaped.size⟩
  have hgone : (v.rewrite n b none).cache n = none := rewrite_cache_self ..
  obtain ⟨hsound, htree⟩ := h.rewrite hn b none
    (by rw [din_of_none hgone, rewrite_disk_self, hdin]; exact hbacked) nofun nofun fun _ => by
      rw [hdin]
      exact hlinks
  refine ⟨v.rewrite n b none, hevict, hsound, ?_, hgone, fun m hm => update_of_ne hm .., rfl,
    fun htracked m node' hnode' hlinks' hne => ?_⟩
  · have hsame : ({ v.tree.record n with removed := false } : Tree.Record) = v.tree.record n := by
      rw [← hremoved, ← removed_of_cache hcache]
      rfl
    grind [Tree.setRecord_self]
  · have hm : m ≠ n := by
      rintro rfl
      rw [hgone] at hnode'
      cases hnode'
    rw [(h.frame_rewrite hn b none).cache m hm] at hnode'
    rw [rewrite_disk_of_ne hm] at hne
    exact htracked m node' hnode' hlinks' hne

/-! ### Inodes are allocated and released -/

/-- No block belongs to an inode without links. -/
lemma ptrs_freshDin (fs : Fs) (type : FileType) (p : Pos) : ptrs fs (freshDin type) p = 0 := by
  cases p <;> simp [ptrs, freshDin, Fs.sub]

variable (h : v.Sound)
include h

variable {b : ℕ}

/-- A free block is at no place. -/
lemma Sound.place_ne_free (hb : v.fs.free b = true) (hne : v.place x ≠ 0) : v.place x ≠ b := by
  rintro rfl
  exact Fs.not_used hb (h.owns.used x hne)

lemma Sound.notMem_of_free (hb : v.fs.free b = true) : b ∉ v.inodes :=
  fun hmem => Fs.not_used hb (h.used hmem)

lemma Sound.cache_of_notMem (hn : n ∉ v.inodes) : v.cache n = none := by
  cases hcache : v.cache n with
  | none => rfl
  | some node => exact absurd (h.mem hcache) hn

/-- Nothing is known about a number that is not one of an inode. -/
lemma Sound.record_of_notMem (hn : n ∉ v.inodes) : v.tree.record n = ⟨none, 0, fun _ => none, 0, 0, false⟩ := by
  simp [Tree.record, tree, hn, removed, h.cache_of_notMem hn]

/-- A block is taken and given back at once. -/
lemma Sound.undo (hb : v.fs.free b = true) : v.Turns v.tree { v with fs := (v.fs.take b).give b } := by
  have hrange := h.ok.free b hb
  have hnot := h.notMem_of_free hb
  have htaken : (v.fs.take b).Used b := Fs.used_take.mpr (.inr ⟨rfl, hrange⟩)
  have hframe : v.Frame b { v with fs := (v.fs.take b).give b } := by
    refine ⟨(h.ok.take hb).give htaken, fun _ _ => Iff.rfl, fun _ _ => rfl, fun x _ hne => ?_⟩
    have hxb := h.place_ne_free hb hne
    refine ⟨Fs.used_give.mpr ⟨Fs.used_take.mpr (.inl (h.owns.used x hne)), hxb⟩, ?_⟩
    exact update_of_ne hxb ..
  refine ⟨⟨rfl, fun htracked m node' hnode' hlinks hne => htracked m node' hnode' hlinks ?_⟩,
    hframe.sound h (absurd · hnot) fun _ => h.cache_of_notMem hnot, ?_, fun _ => rfl,
    fun m hm => ?_⟩
  · have hm : m ≠ b := by
      rintro rfl
      exact hnot (h.mem hnode')
    have hdisk : ((v.fs.take b).give b).disk m = v.fs.disk m := update_of_ne hm ..
    rw [← hdisk]
    exact hne
  · have hrecord : ({ v with fs := (v.fs.take b).give b } : Vol).tree.record b = v.tree.record b := by
      rw [h.record_of_notMem hnot]
      simp [Tree.record, tree, hnot, removed, h.cache_of_notMem hnot]
    rw [hframe.tree_eq h, hrecord, Tree.setRecord_self]
  · grind [din_congr]

/-- There is a new inode, without links and with one reference. -/
structure Created (v : Vol) (type : FileType) (n : ℕ) (v' : Vol) : Prop extends v.Follows v' where
  sound : v'.Sound
  fresh : n ∉ v.inodes
  tree : v'.tree = v.tree.add n type
  status : v'.status n = some (false, 1, 1)
  others : ∀ m, m ≠ n → v'.cache m = v.cache m
  nlinks : (v'.din n).nlinks = 0

variable {type : FileType}

/-- A free block becomes an inode. -/
lemma Sound.created (hb : v.fs.free b = true) (htype : type = .dir ∨ type = .file) :
    v.Created type b ⟨v.fs.take b, update v.cache b (some ⟨⟨freshDin type, false⟩, false, 1, 1⟩),
      insert b v.inodes⟩ := by
  have hrange := h.ok.free b hb
  have hnot := h.notMem_of_free hb
  set v' : Vol := ⟨v.fs.take b, update v.cache b (some ⟨⟨freshDin type, false⟩, false, 1, 1⟩),
    insert b v.inodes⟩ with hv'
  have hcache : v'.cache b = some ⟨⟨freshDin type, false⟩, false, 1, 1⟩ := update_self ..
  have hmem : b ∈ v'.inodes := Finset.mem_insert_self b v.inodes
  have hdin : v'.din b = freshDin type := din_of_cache hcache
  have hdisk : ∀ m, m ≠ b → v'.fs.disk m = v.fs.disk m := fun m hm => update_of_ne hm ..
  have hframe : v.Frame b v' := by
    refine ⟨h.ok.take hb, fun m hm => ?_, fun m hm => update_of_ne hm .., fun x _ hne => ?_⟩
    · rw [hv', Finset.mem_insert, or_iff_right hm]
    · exact ⟨Fs.used_take.mpr (.inl (h.owns.used x hne)), hdisk _ (h.place_ne_free hb hne)⟩
  have hptrs : ∀ p, ptrs v'.fs (v'.din b) p = 0 := by
    rw [hdin]
    exact ptrs_freshDin v'.fs type
  have hsound : v'.Sound := by
    refine hframe.sound h (fun _ => ?_) fun hgone => absurd hmem hgone
    refine ⟨Fs.used_take.mpr (.inr ⟨rfl, hrange⟩), ⟨fun p hp => absurd (hptrs p) hp,
      fun p _ hp => absurd (hptrs p) hp⟩, fun p => ?_, fun x _ hne => ⟨(h.place_ne_free hb hne).symm,
      fun p => ?_⟩, ?_, fun node' hnode' => ?_, fun node' hnode' _ hlinks => ?_, fun hnone => ?_⟩
    · rw [hptrs]
      exact hrange.1.symm
    · rw [hptrs]
      exact hne.symm
    · rw [hdin]
      have hfits : 0 < 2 ^ 32 := by norm_num
      exact ⟨fun i hi => absurd hi (Nat.not_lt_zero i), ⟨hfits, hfits, hfits, fun _ => hfits, hfits, hfits⟩,
        htype, fun _ => Nat.zero_le _⟩
    · grind
    · rw [hcache] at hnode'
      cases hnode'
      exact absurd rfl hlinks
    · rw [hcache] at hnone
      cases hnone
  refine ⟨⟨rfl, fun htracked m node' hnode' hlinks hne => ?_⟩, hsound, hnot, ?_, status_of_cache hcache,
    fun m hm => update_of_ne hm .., ?_⟩
  · obtain rfl | hm := eq_or_ne m b
    · rw [hcache] at hnode'
      cases hnode'
      exact absurd rfl hlinks
    · rw [hframe.cache m hm] at hnode'
      rw [hdisk m hm] at hne
      exact htracked m node' hnode' hlinks hne
  · rw [hframe.tree_eq h, Tree.add_eq, h.record_of_notMem hnot, record_eq hmem, hdin, removed_of_cache hcache]
    refine congrArg _ (Tree.Record.ext rfl rfl ?_ ?_ ?_ rfl)
    · funext i
      exact ite_eq_right_iff.mpr fun _ => entries_eq_none_of_le (Nat.zero_le i)
    · exact ite_self 0
    · exact ite_self 0
  · rw [hdin]
    rfl

lemma Sound.createInode (mem₁ mem₂ : Bool) (htype : type = .dir ∨ type = .file) :
    (∃ v' b, v.createInode mem₁ mem₂ type = .ok (v', some b) ∧ v.Created type b v') ∨
      ∃ v', v.createInode mem₁ mem₂ type = .ok (v', none) ∧ v.Turns v.tree v' := by
  rw [Vol.createInode]
  cases mem₁ with
  | false => exact .inr ⟨v, rfl, Turns.refl h⟩
  | true =>
    rw [if_neg (by decide)]
    obtain ⟨-, halloc⟩ | ⟨b, hb, -, -, halloc⟩ := blockAlloc_spec h.ok
    · rw [halloc]
      exact .inr ⟨v, rfl, Turns.refl h⟩
    · have htaken : (v.fs.take b).Used b := Fs.used_take.mpr (.inr ⟨rfl, h.ok.free b hb⟩)
      rw [halloc, ok_bind]
      cases mem₂ with
      | false =>
        refine .inr ⟨{ v with fs := (v.fs.take b).give b }, ?_, h.undo hb⟩
        dsimp only
        rw [if_pos rfl, blockFree_spec htaken]
        rfl
      | true =>
        have hops : getOps type = .ok () := if_pos htype
        refine .inl ⟨_, b, ?_, h.created hb htype⟩
        dsimp only
        rw [if_neg (by decide), hops]
        rfl

end Vol

/-- What the last part of `sfs_reclaim` does: pointers are lost, and if the file has no block any more, the
blocks that they point to are given back. -/
structure Sheds (fs : Fs) (din : Din) (fs' : Fs) (din' : Din) : Prop extends Kept fs din fs' din' where
  lost : ∀ q, ptrs fs' din' q = 0 ∨ ptrs fs' din' q = ptrs fs din q
  rest : (∀ q, q.Leaf → ptrs fs din q = 0) → ∀ c, fs'.Used c → (∀ q, ptrs fs' din' q ≠ c) →
    fs.Used c ∧ ∀ q, ptrs fs din q ≠ c

namespace Sheds

lemma refl (hok : FsOk fs) (hheld : Held fs din) : Sheds fs din fs din :=
  ⟨Kept.refl hok hheld, fun _ => .inr rfl, fun _ _ hc hother => ⟨hc, hother⟩⟩

lemma trans {fs'' : Fs} {din'' : Din} (h : Sheds fs din fs' din') (h' : Sheds fs' din' fs'' din'') :
    Sheds fs din fs'' din'' := by
  refine ⟨h.toKept.trans h'.toKept, fun q => ?_, fun hleaf c hc hother => ?_⟩
  · grind [h.lost q, h'.lost q]
  · have hleaf' : ∀ q, q.Leaf → ptrs fs' din' q = 0 := fun q _ => by grind [h.lost q]
    obtain ⟨hc', hother'⟩ := h'.rest hleaf' c hc hother
    exact h.rest hleaf c hc' hother'

end Sheds

/-- A position below which there are only blocks of the file. -/
lemma Frees.sheds {p : Pos} (h : Frees fs din fs' din' p)
    (hbare : (∀ q, q.Leaf → ptrs fs din q = 0) → Bare Pos.shape (ptrs fs din) p) : Sheds fs din fs' din' :=
  ⟨h.toKept, h.lost, fun hleaf _ => h.rest (hbare hleaf)⟩

/-- The indirect block is given back. -/
lemma freeIndirect_spec (hok : FsOk fs) (hheld : Held fs din) :
    ∃ fs', Vol.freeIndirect fs din.indirect = .ok fs' ∧ Sheds fs din fs' { din with indirect := 0 } := by
  rw [Vol.freeIndirect]
  by_cases hzero : din.indirect = 0
  · have hsame : { din with indirect := 0 } = din := by rw [← hzero]
    rw [if_pos hzero, hsame]
    exact ⟨fs, rfl, Sheds.refl hok hheld⟩
  · have hused : fs.Used din.indirect := hheld.used .indirect hzero
    rw [if_neg hzero]
    exact ⟨fs.give din.indirect, blockFree_spec hused, (Frees.freeRoot hok hheld (p := .indirect) rfl
      hzero).sheds fun hleaf c _ => hleaf c (by cases c <;> simp_all [Pos.shape, Pos.parent, Pos.Leaf])⟩

/-- The loop over the double indirect block. -/
lemma freeSubs_spec (hdb : din.dbIndirect ≠ 0) (left i : ℕ) (hok : FsOk fs) (hheld : Held fs din)
    (hleft : i + left ≤ nentry) :
    ∃ fs', Vol.freeSubs din.dbIndirect left fs i = .ok fs' ∧ Sheds fs din fs' din ∧
      ∀ k : Fin nentry, i ≤ k → k < i + left → ptrs fs' din (.dbInd k) = 0 := by
  induction left generalizing fs i with
  | zero => exact ⟨fs, rfl, Sheds.refl hok hheld, fun k hk hlt => absurd hlt (by omega)⟩
  | succ left ih =>
    obtain ⟨fs1, hfree, hfrees⟩ := bmapFreeSub_spec (c := .dbInd ⟨i, by omega⟩) hok hheld rfl hdb
    have hfree : bmapFreeSub fs din.dbIndirect i = .ok fs1 := hfree
    have hsheds := hfrees.sheds fun hleaf c _ =>
      hleaf c (by cases c <;> simp_all [Pos.shape, Pos.parent, Pos.Leaf])
    obtain ⟨fs2, hloop, hsheds', hgone⟩ := ih (i + 1) hfrees.ok hfrees.held (by omega)
    refine ⟨fs2, ?_, hsheds.trans hsheds', fun k hk hlt => ?_⟩
    · rw [Vol.freeSubs, hfree, ok_bind, hloop]
    · by_cases hki : i = k
      · have hself : ptrs fs1 din (.dbInd k) = 0 := by
          have hk : k = ⟨i, by omega⟩ := Fin.ext hki.symm
          rw [hk]
          exact hfrees.self
        grind [hsheds'.lost (.dbInd k)]
      · exact hgone k (by omega) (by omega)

/-- The double indirect block is given back, with all blocks below it. -/
lemma freeDbIndirect_spec (hok : FsOk fs) (hheld : Held fs din) :
    ∃ fs', Vol.freeDbIndirect fs din.dbIndirect = .ok fs' ∧ Sheds fs din fs' { din with dbIndirect := 0 } := by
  rw [Vol.freeDbIndirect]
  by_cases hzero : din.dbIndirect = 0
  · have hsame : { din with dbIndirect := 0 } = din := by rw [← hzero]
    rw [if_pos hzero, hsame]
    exact ⟨fs, rfl, Sheds.refl hok hheld⟩
  · obtain ⟨fs1, hloop, hsheds, hgone⟩ := freeSubs_spec hzero nentry 0 hok hheld (zero_add _).le
    have hused : fs1.Used din.dbIndirect := hsheds.held.used .dbIndirect hzero
    rw [if_neg hzero, hloop, ok_bind]
    refine ⟨fs1.give din.dbIndirect, blockFree_spec hused, hsheds.trans ((Frees.freeRoot hsheds.ok hsheds.held
      (p := .dbIndirect) rfl hzero).sheds fun _ c _ => ?_)⟩
    obtain ⟨k, rfl⟩ : ∃ k, c = .dbInd k := by cases c <;> simp_all [Pos.shape, Pos.parent]
    exact hgone k (Nat.zero_le _) (by omega)

/-- The block of an inode is given back, while the blocks that it owns are still in use. -/
lemma Held.give (hheld : Held fs din) (hn : ∀ p, ptrs fs din p ≠ n) : Held (fs.give n) din :=
  Owns.mono hheld fun p hp => Fs.used_give.mpr ⟨hheld.used p hp, hn p⟩

namespace Vol

/-- What an inode owned is given back, and nothing else is touched. -/
lemma Sound.frame_release (h : v.Sound) (hcache : v.cache n = some node) :
    ∃ fs', (v.reclaimed n node).release n = .ok ⟨fs', update v.cache n none, v.inodes.erase n⟩ ∧
      v.Frame n ⟨fs', update v.cache n none, v.inodes.erase n⟩ ∧ fs'.blocks = v.fs.blocks := by
  have hn := h.mem hcache
  have hcache' : (v.reclaimed n node).cache n = some { node with ref := 0, reclaimCount := 0 } :=
    update_self ..
  have hsin := sin_of_cache hcache
  have hdin := din_of_cache hcache
  have hmapped := h.mapped hn
  rw [hsin] at hmapped
  obtain ⟨fs1, sin1, hshrink, hmapped1, hremapped, -, -⟩ := shrinkLoop_spec node.sin.din.blocks hmapped le_rfl
  have hkept1 : Kept v.fs (v.din n) fs1 sin1.din := by
    rw [hdin]
    exact hremapped.kept
  have hn1 := (h.keep_self hn hkept1).1
  have hself := hkept1.not_owned (h.used hn) fun q => h.ptrs_ne_inode hn hn q
  obtain ⟨fs2, hind, hkept2⟩ := freeIndirect_spec (hmapped1.ok.give hn1) (hmapped1.held.give hself)
  obtain ⟨fs3, hdb, hkept3⟩ := freeDbIndirect_spec hkept2.ok hkept2.held
  refine ⟨fs3, ?_, ⟨hkept3.ok, fun m hm => ?_, fun m hm => update_of_ne hm .., fun x hx hne => ?_⟩,
    hkept3.blocks.trans (hkept2.blocks.trans hkept1.blocks)⟩
  · have hdb : freeDbIndirect fs2 sin1.din.dbIndirect = .ok fs3 := hdb
    rw [Vol.release, din_of_cache hcache', sin_of_cache hcache']
    change (shrinkLoop node.sin.din.blocks v.fs node.sin >>= _) = _
    rw [hshrink, ok_bind]
    dsimp only
    rw [blockFree_spec hn1, ok_bind, hind, ok_bind, hdb, ok_bind, Vol.reclaimed, Vol.setNode, update_idem]
    rfl
  · rw [Finset.mem_erase, and_iff_right hm]
  · -- a block of another inode
    have hused := h.owns.used x hne
    have hxn := h.place_ne hn hx hne
    have hown : ∀ p, ptrs v.fs (v.din n) p ≠ v.place x := by
      intro p heq
      have hinj := h.owns.inj (n, some p) x
      grind [place_pos]
    obtain ⟨hused1, hdisk1⟩ := hkept1.keep _ hused hown
    have hown1 := hkept1.not_owned hused hown
    have hused1' := Fs.used_give.mpr ⟨hused1, hxn⟩
    obtain ⟨hused2, hdisk2⟩ := hkept2.keep _ hused1' hown1
    obtain ⟨hused3, hdisk3⟩ := hkept3.keep _ hused2 (hkept2.not_owned hused1' hown1)
    exact ⟨hused3, hdisk3.trans (hdisk2.trans hdisk1)⟩

/-- An inode without links is released. -/
lemma Sound.release (h : v.Sound) (hcache : v.cache n = some node) :
    ∃ v', (v.reclaimed n node).release n = .ok v' ∧ v'.Sound ∧ v'.tree = v.tree.drop n ∧ v'.cache n = none ∧
      (∀ m, m ≠ n → v'.cache m = v.cache m) ∧ v.Follows v' := by
  obtain ⟨fs', hrelease, hframe, hblocks⟩ := h.frame_release hcache
  set v' : Vol := ⟨fs', update v.cache n none, v.inodes.erase n⟩ with hv'
  have hgone : v'.cache n = none := update_self ..
  have hnot : n ∉ v'.inodes := Finset.notMem_erase n v.inodes
  have hsound : v'.Sound := hframe.sound h (absurd · hnot) fun _ => hgone
  refine ⟨v', hrelease, hsound, ?_, hgone, hframe.cache, hblocks, fun htracked m node' hnode' hlinks hne => ?_⟩
  · rw [hframe.tree_eq h, hsound.record_of_notMem hnot, Tree.drop_eq]
  · have hm : m ≠ n := by
      rintro rfl
      rw [hgone] at hnode'
      cases hnode'
    rw [hframe.cache m hm] at hnode'
    rw [(hframe.inode h (h.mem hnode') hm).2] at hne
    exact htracked m node' hnode' hlinks hne

/-! ### References go -/

/-- The last reference to an inode goes. -/
lemma refDec_last (hcache : v.cache n = some node) (href : node.ref = 1) (hcount : node.reclaimCount = 1) :
    v.refDec n = if node.sin.din.nlinks = 0 then (v.reclaimed n node).release n
      else (v.reclaimed n node).evict n := by
  rw [Vol.refDec, hcache]
  dsimp only
  rw [if_neg (by omega), if_pos (by omega), Vol.reclaim, hcount, if_neg one_ne_zero]
  rw [if_neg (by omega)]
  rfl

section

variable (hn : n ∈ v.inodes)
include hn

lemma tree_nlinks : v.tree.nlinks n = (v.din n).nlinks := if_pos hn

lemma tree_kind : v.tree.kind n = some (v.din n).type := if_pos hn

lemma tree_parent (hdir : (v.din n).type = .dir) : v.tree.parent n = (v.din n).parent :=
  if_pos ⟨hn, hdir⟩

end

lemma mem_of_kind {type : FileType} (h : v.tree.kind n = some type) : n ∈ v.inodes := by
  by_contra hn
  rw [show v.tree.kind n = none from if_neg hn] at h
  cases h

/-- A new inode that has got no link is released with its only reference. -/
lemma Sound.refDec_fresh (h : v.Sound) (hstatus : v.status n = some (false, 1, 1))
    (hlinks : v.tree.nlinks n = 0) :
    ∃ v', v.refDec n = .ok v' ∧ v'.Sound ∧ v'.tree = v.tree.drop n ∧ v.Follows v' := by
  rw [status, Option.map_eq_some_iff] at hstatus
  obtain ⟨node, hcache, hnode⟩ := hstatus
  simp only [Prod.mk.injEq] at hnode
  obtain ⟨-, href, hcount⟩ := hnode
  rw [tree_nlinks (h.mem hcache), din_of_cache hcache] at hlinks
  obtain ⟨v', hrelease, hsound, htree, -, -, hfollows⟩ := h.release hcache
  grind [refDec_last]

/-- A reference goes. If it was the last one, and the inode has no links, it is released. -/
lemma Sound.refDec (h : v.Sound) (hok : v.tree.Ok) (hcache : v.cache n = some node)
    (hwrap : node.ref = 1 → v.tree.nlinks n = 0 → v.tree.links n = 0) : ∃ v', v.refDec n = .ok v' ∧ v'.Sound ∧
      (v'.tree = v.tree ∨ v.tree.links n = 0 ∧ v'.tree = v.tree.drop n) ∧ v.Follows v' := by
  obtain ⟨hn, hpos, hcount⟩ := h.cached n node hcache
  have hnlinks : v.tree.nlinks n = node.sin.din.nlinks := by rw [tree_nlinks hn, din_of_cache hcache]
  by_cases href : node.ref = 1
  · rw [refDec_last hcache href hcount]
    by_cases h0 : node.sin.din.nlinks = 0
    · obtain ⟨v', hrelease, hsound, htree, -, -, hfollows⟩ := h.release hcache
      grind
    · have hremoved : node.removed = false := by
        by_contra htrue
        have hgone : v.tree.removed n = true := by
          change v.removed n = true
          rw [removed_of_cache hcache]
          simpa using htrue
        have hcounted := hok.counted n
        rw [Tree.Counted, hok.links_of_removed hgone, hnlinks] at hcounted
        exact h0 hcounted
      obtain ⟨v', hevict, hsound, htree, -, -, hfollows⟩ := h.evict hcache h0 hremoved
      grind
  · obtain ⟨hsound, htree, hfollows⟩ := h.setNode hcache { node with ref := node.ref - 1 } rfl
      ⟨by dsimp only; omega, hcount⟩
    refine ⟨_, ?_, hsound, .inl ?_, hfollows⟩
    · grind [Vol.refDec]
    · have hsame := setRecord_of_cache hcache
      exact htree.trans hsame

end Vol

end UcoreKernel.Sfs
