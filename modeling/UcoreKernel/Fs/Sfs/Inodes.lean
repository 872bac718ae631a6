import UcoreKernel.Fs.Sfs.Ownership

/-!
Changes of one inode in memory.

A change concerns one inode and the blocks it owns, so that `Vol.Frame` says what happens to the others.
What it does to the names is a new record for that inode.
-/

namespace UcoreKernel.Sfs

open ByteBlock PointerTree Function

variable {fs fs' : Fs} {din din' : Din} {sin sin' : Sin} {n m : ℕ} {v v' : Vol} {node : Node}

/-- What a directory or a file is in the tree of names. -/
def Din.record (fs : Fs) (din : Din) (removed : Bool) : Tree.Record where
  kind := some din.type
  nlinks := din.nlinks
  entry i := if din.type = .dir then entries fs din i else none
  slots := if din.type = .dir then din.slots else 0
  parent := if din.type = .dir then din.parent else 0
  removed := removed

/-- The numbers of a complete block map fit their words. -/
lemma Mapped.fits (h : Mapped fs sin) (hsize : sin.din.size < 2 ^ 32) (hparent : sin.din.parent < 2 ^ 32) :
    sin.din.Fits := by
  have hptr : ∀ p, ptrs fs sin.din p < 2 ^ 32 := fun p => by
    by_cases hp : ptrs fs sin.din p = 0
    · rw [hp]
      norm_num
    · exact (h.held.used p hp).2.1.trans_le h.ok.blocks
  refine ⟨hsize, hparent, ?_, fun i => hptr (.direct i), hptr .indirect, hptr .dbIndirect⟩
  by_contra hlarge
  -- a block that no position has
  obtain ⟨p, hp, -⟩ := h.mapped (2 ^ 32 - 1) (by omega)
  unfold Pos.ofIndex at hp
  split_ifs at hp with hdirect hind hdb
  · unfold ndirect at hdirect
    omega
  · unfold ndirect nentry blkSize at hind
    omega
  · unfold ndirect nentry blkSize at hdb
    omega

namespace Vol

/-- An inode in memory that has links is on disk as it is in memory, or it is marked dirty. -/
def Tracked (v : Vol) : Prop :=
  ∀ n node, v.cache n = some node → node.sin.din.nlinks ≠ 0 →
    node.sin.din ≠ .ofBlock (v.fs.disk n) → node.sin.dirty = true

/-- How an inode in memory is referred to. -/
def status (v : Vol) (n : ℕ) : Option (Bool × ℕ × ℕ) :=
  (v.cache n).map fun node => (node.removed, node.ref, node.reclaimCount)

lemma isSome_status (v : Vol) (n : ℕ) : (v.status n).isSome = (v.cache n).isSome := Option.isSome_map

/-- A volume after another one: its size is the same, and inodes in memory are as good as before. -/
structure Follows (v v' : Vol) : Prop where
  blocks : v'.fs.blocks = v.fs.blocks
  tracked : v.Tracked → v'.Tracked

namespace Follows

variable {v'' : Vol}

lemma refl (v : Vol) : v.Follows v := ⟨rfl, id⟩

lemma trans (h : v.Follows v') (h' : v'.Follows v'') : v.Follows v'' :=
  ⟨h'.blocks.trans h.blocks, fun htracked => h'.tracked (h.tracked htracked)⟩

end Follows

/-- A volume after another one, with its names. The inodes in memory are referred to as before, and they
have not lost blocks. -/
structure Turns (v : Vol) (t : Tree) (v' : Vol) : Prop extends v.Follows v' where
  sound : v'.Sound
  tree : v'.tree = t
  status : ∀ m, v'.status m = v.status m
  grows : ∀ m, (v.cache m).isSome = true → (v.din m).blocks ≤ (v'.din m).blocks

namespace Turns

variable {t t' : Tree} {v'' : Vol}

lemma refl (h : v.Sound) : v.Turns v.tree v := 
  ⟨Follows.refl v, h, rfl, fun _ => rfl, fun _ _ => le_rfl⟩

variable (h : v.Turns t v')
include h

lemma isSome (n : ℕ) : (v'.cache n).isSome = (v.cache n).isSome := by
  rw [← isSome_status, h.status, isSome_status]

lemma trans (h' : v'.Turns t' v'') : v.Turns t' v'' :=
  ⟨h.toFollows.trans h'.toFollows, h'.sound, h'.tree, fun m => (h'.status m).trans (h.status m),
    fun m hm => (h.grows m hm).trans (h'.grows m ((h.isSome m).trans hm))⟩

/-- An inode that was in memory still is. -/
lemma exists_cache (hn : (v.cache n).isSome = true) : ∃ node, v'.cache n = some node :=
  Option.isSome_iff_exists.mp ((h.isSome n).trans hn)

end Turns

/-- One inode in memory and the blocks replaced. -/
def replace (v : Vol) (n : ℕ) (fs : Fs) (node : Node) : Vol where
  fs := fs
  cache := update v.cache n (some node)
  inodes := v.inodes

lemma put_eq (h : v.cache n = some node) (fs : Fs) (sin : Sin) :
    v.put n fs sin = v.replace n fs { node with sin := sin } := by
  rw [put, replace, h]
  rfl

lemma put_self (h : v.cache n = some node) : v.put n v.fs (v.sin n) = v := by
  rw [put_eq h, sin_of_cache h, replace]
  cases v with
  | mk fs cache inodes =>
    simp only [Vol.mk.injEq, true_and, and_true]
    exact update_eq_self_iff.mpr h.symm

lemma setNode_eq (v : Vol) (n : ℕ) (node : Node) : v.setNode n (some node) = v.replace n v.fs node := rfl

@[simp] lemma replace_cache_self (v : Vol) (n : ℕ) (fs : Fs) (node : Node) :
    (v.replace n fs node).cache n = some node := update_self ..

lemma replace_cache_of_ne (hm : m ≠ n) : (v.replace n fs node).cache m = v.cache m :=
  update_of_ne hm ..

/-- Inodes in memory do not depend on the blocks. -/
lemma din_congr (hcache : v'.cache m = v.cache m) (hm : (v.cache m).isSome = true) : v'.din m = v.din m := by
  obtain ⟨node, hnode⟩ := Option.isSome_iff_exists.mp hm
  rw [din_of_cache hnode, din_of_cache (hcache.trans hnode)]

lemma replace_din (v : Vol) (n : ℕ) (fs : Fs) (node : Node) :
    (v.replace n fs node).din n = node.sin.din := din_of_cache (replace_cache_self ..)

lemma record_eq (hn : n ∈ v.inodes) : v.tree.record n = (v.din n).record v.fs (v.removed n) := by
  ext1 <;> simp [Tree.record, tree, Din.record, hn]

lemma removed_of_cache (h : v.cache n = some node) : v.removed n = node.removed := by
  rw [removed, h]
  rfl

section

variable (h : v.Sound) (hn : n ∈ v.inodes)
include h hn

/-- The inode of a file or directory in memory is replaced, with blocks that it owns. -/
lemma Sound.frame_replace (node : Node)
    (hkept : Kept v.fs (v.din n) fs' node.sin.din) : v.Frame n (v.replace n fs' node) where
  ok := hkept.ok
  inodes _ _ := Iff.rfl
  cache _ hm := replace_cache_of_ne hm
  keep x hx hplace := by
    refine hkept.keep _ (h.owns.used x hplace) fun p hp => ?_
    have hinj := h.owns.inj (n, some p) x
    grind [place_pos]

/-- The block of the inode itself is not among them. -/
lemma Sound.keep_self (hkept : Kept v.fs (v.din n) fs' din') : fs'.Used n ∧ fs'.disk n = v.fs.disk n :=
  hkept.keep n (h.used hn) fun p => h.ptrs_ne_inode hn hn p

lemma Sound.replace (node : Node)
    (hkept : Kept v.fs (v.din n) fs' node.sin.din) (hshaped : Shaped fs' node.sin.din)
    (hcount : 0 < node.ref ∧ node.reclaimCount = 1)
    (hbacked : node.sin.dirty = false → node.sin.din.nlinks ≠ 0 →
      Backed (.ofBlock (v.fs.disk n)) node.sin.din) : (v.replace n fs' node).Sound ∧
      (v.replace n fs' node).tree = v.tree.setRecord n (node.sin.din.record fs' node.removed) := by
  have hframe := h.frame_replace hn node hkept
  have hself := h.keep_self hn hkept
  have hdin := replace_din v n fs' node
  constructor
  · refine hframe.sound h (fun _ => ?_) fun hgone => absurd hn hgone
    refine ⟨hself.1, ?_, fun p => ?_, fun x hx hplace => ⟨fun heq => ?_, fun p => ?_⟩, ?_,
      fun node' hnode' => ?_, fun node' hnode' => ?_, fun hnone => ?_⟩
    · rw [hdin]
      exact hkept.held
    · rw [hdin]
      exact hkept.not_owned (h.used hn) (h.ptrs_ne_inode hn hn ·) p
    · have hinj := h.owns.inj (n, none) x
      grind [place_inode]
    · rw [hdin]
      refine hkept.not_owned (h.owns.used x hplace) (fun q hq => ?_) p
      have hinj := h.owns.inj (n, some q) x
      grind [place_pos]
    · rw [hdin]
      exact hshaped
    · grind [replace_cache_self]
    · rw [replace_cache_self] at hnode'
      cases hnode'
      intro hclean hlinks
      change Backed (.ofBlock (fs'.disk n)) _
      rw [hself.2]
      exact hbacked hclean hlinks
    · rw [replace_cache_self] at hnone
      cases hnone
  · have hn' : n ∈ (v.replace n fs' node).inodes := hn
    rw [hframe.tree_eq h, record_eq hn', hdin, removed_of_cache (replace_cache_self ..)]
    rfl

end

lemma status_replace (hstatus : v.status n = some (node.removed, node.ref, node.reclaimCount)) (m : ℕ) :
    (v.replace n fs' node).status m = v.status m := by
  obtain rfl | hm := eq_or_ne m n
  · rw [hstatus, status, replace_cache_self]
    rfl
  · rw [status, replace_cache_of_ne hm, status]

lemma status_of_cache (h : v.cache n = some node) :
    v.status n = some (node.removed, node.ref, node.reclaimCount) := by
  rw [status, h]
  rfl

variable (h : v.Sound)
include h

/-- An inode that is clean afterwards was so before, and it is still what its block holds. -/
lemma Sound.tracked_replace (hn : n ∈ v.inodes) (node : Node) (hkept : Kept v.fs (v.din n) fs' node.sin.din)
    (hclean : v.Tracked → node.sin.dirty = false → node.sin.din.nlinks ≠ 0 →
      node.sin.din = .ofBlock (v.fs.disk n)) (htracked : v.Tracked) : (v.replace n fs' node).Tracked := by
  intro m node' hnode' hlinks hne
  obtain rfl | hm := eq_or_ne m n
  · rw [replace_cache_self] at hnode'
    cases hnode'
    change node.sin.din ≠ .ofBlock (fs'.disk m) at hne
    rw [(h.keep_self hn hkept).2] at hne
    grind
  · rw [replace_cache_of_ne hm] at hnode'
    change node'.sin.din ≠ .ofBlock (fs'.disk m) at hne
    have hframe := h.frame_replace hn node hkept
    have hdisk : fs'.disk m = v.fs.disk m := (hframe.inode h (h.mem hnode') hm).2
    rw [hdisk] at hne
    exact htracked m node' hnode' hlinks hne

variable (hcache : v.cache n = some node)
include hcache

lemma Sound.shaped_of_cache : Shaped v.fs node.sin.din :=
  din_of_cache hcache ▸ h.shaped n (h.mem hcache)

lemma Sound.record_of_cache : v.tree.record n = node.sin.din.record v.fs node.removed := by
  rw [record_eq (h.mem hcache), din_of_cache hcache, removed_of_cache hcache]

/-- An inode in memory changes, with the blocks that it owns. -/
lemma Sound.put (hmapped : Mapped fs' sin')
    (hresized : Resized v.fs node.sin fs' sin') (hsize : sin'.din.size < 2 ^ 32)
    (hfile : sin'.din.type = .file → sin'.din.size ≤ (sin'.din.blocks + 1) * blkSize)
    (hdir : sin'.din.type = .dir → sin'.dirty = false → sin'.din.blocks = node.sin.din.blocks) :
    (v.put n fs' sin').Sound ∧ (v.put n fs' sin').tree = v.tree.setRecord n (sin'.din.record fs' node.removed) ∧
      (∀ m, (v.put n fs' sin').status m = v.status m) ∧
      (∀ m, (v.cache m).isSome = true → m ≠ n → (v.put n fs' sin').din m = v.din m) ∧
      ((sin'.dirty = false → sin'.din.blocks = node.sin.din.blocks) → v.Tracked →
        (v.put n fs' sin').Tracked) := by
  have hn := h.mem hcache
  have hdin := din_of_cache hcache
  have hkept : Kept v.fs (v.din n) fs' sin'.din := by
    rw [hdin]
    exact hresized.kept
  have hshaped := h.shaped_of_cache hcache
  have hparent : sin'.din.parent = node.sin.din.parent := by rw [hresized.same]
  have hlinks := hresized.nlinks
  have hstatus := status_of_cache hcache
  have hshaped' : Shaped fs' sin'.din := ⟨hmapped.mapped,
    hmapped.fits hsize (hparent ▸ hshaped.fits.parent), hresized.type ▸ hshaped.type, hfile⟩
  have hbacked : sin'.dirty = false → sin'.din.nlinks ≠ 0 → Backed (.ofBlock (v.fs.disk n)) sin'.din := by
    intro hclean hne
    obtain ⟨hclean', hle, hsame⟩ := hresized.clean hclean
    rw [hlinks] at hne
    obtain ⟨b, hb, hdisk, hbdir, hbfile⟩ := h.backed n node hcache hclean' hne
    refine ⟨b, hb.trans hle, ?_, fun htype => ?_, fun htype => ?_⟩
    · rw [hdisk, hsame]
    · grind
    · grind
  rw [put_eq hcache]
  obtain ⟨hsound, htree⟩ := h.replace hn { node with sin := sin' } hkept hshaped' (h.cached n node hcache).2 hbacked
  refine ⟨hsound, htree, status_replace hstatus, fun m hm hmn => din_congr (replace_cache_of_ne hmn) hm, fun hblocks =>
    h.tracked_replace hn { node with sin := sin' } hkept ?_⟩
  intro htracked hclean hne
  obtain ⟨hclean', -, hsame⟩ := hresized.clean hclean
  rw [hblocks hclean] at hsame
  have heq : sin'.din = node.sin.din := hsame
  rw [heq] at hne ⊢
  by_contra hdiff
  have hdirty := htracked n node hcache hne hdiff
  rw [hclean'] at hdirty
  cases hdirty

/-- Of an inode without links nothing has to be on disk. -/
lemma Sound.put_unlinked
    (hresized : Resized v.fs node.sin fs' sin') (hlinks : sin'.din.nlinks = 0) (htracked : v.Tracked) :
    (v.put n fs' sin').Tracked := by
  have hkept : Kept v.fs (v.din n) fs' sin'.din := by
    rw [din_of_cache hcache]
    exact hresized.kept
  rw [put_eq hcache]
  exact h.tracked_replace (h.mem hcache) { node with sin := sin' } hkept (fun _ _ hne => absurd hlinks hne) htracked

/-- The fields of an inode in memory that are not about blocks change. -/
lemma Sound.modify {f : Din → Din} (hblocks : (f node.sin.din).blocks = node.sin.din.blocks)
    (hdirect : (f node.sin.din).direct = node.sin.din.direct)
    (hindirect : (f node.sin.din).indirect = node.sin.din.indirect)
    (hdbIndirect : (f node.sin.din).dbIndirect = node.sin.din.dbIndirect)
    (htype : (f node.sin.din).type = node.sin.din.type) (hsize : (f node.sin.din).size < 2 ^ 32)
    (hparent : (f node.sin.din).parent < 2 ^ 32)
    (hfile : node.sin.din.type = .file → (f node.sin.din).size = node.sin.din.size) :
    v.Turns (v.tree.setRecord n ((f node.sin.din).record v.fs node.removed)) (v.modify n f) := by
  have hn := h.mem hcache
  have hdin := din_of_cache hcache
  have hmapped := h.mapped hn
  have hptrs : ptrs v.fs (f node.sin.din) = ptrs v.fs node.sin.din := ptrs_congr hdirect hindirect hdbIndirect
  have hheld : Held v.fs (f node.sin.din) := by
    rw [Held, hptrs, ← hdin]
    exact h.held hn
  have hkept : Kept v.fs (v.din n) v.fs (f node.sin.din) := by
    rw [hdin]
    exact ⟨h.ok, hheld, rfl, fun p _ => .inl ⟨p, by rw [hptrs]⟩, fun _ hb _ => ⟨hb, rfl⟩⟩
  have hmap : Mapped v.fs ⟨f node.sin.din, true⟩ := by
    refine ⟨h.ok, hheld, ?_⟩
    change ∀ i < (f node.sin.din).blocks, ∃ p, Pos.ofIndex i = some p ∧ ptrs v.fs (f node.sin.din) p ≠ 0
    rw [hblocks, hptrs, ← hdin]
    exact hmapped.mapped
  have hshaped := h.shaped_of_cache hcache
  have hshaped' : Shaped v.fs (f node.sin.din) := by
    refine ⟨hmap.mapped, hmap.fits hsize hparent, by rw [htype]; exact hshaped.type, fun hfile' => ?_⟩
    rw [htype] at hfile'
    rw [hfile hfile', hblocks]
    exact hshaped.size hfile'
  have hstatus := status_of_cache hcache
  rw [Vol.modify, put_eq hcache, hdin]
  obtain ⟨hsound, htree⟩ := h.replace hn { node with sin := ⟨f node.sin.din, true⟩ } hkept hshaped'
    (h.cached n node hcache).2 (by simp)
  refine ⟨⟨rfl, h.tracked_replace hn _ hkept (by simp)⟩, hsound, htree, status_replace hstatus, fun m hm => ?_⟩
  obtain rfl | hmn := eq_or_ne m n
  · rw [hdin, replace_din]
    exact hblocks.ge
  · rw [din_congr (replace_cache_of_ne hmn) hm]

/-! ### Changes of single fields -/

lemma Sound.addLinks (k : BitVec 16) :
    v.Turns (v.tree.addLinks n k) (v.modify n fun din => { din with nlinks := din.nlinks + k }) := by
  have hshaped := h.shaped_of_cache hcache
  have hrecord := h.record_of_cache hcache
  have hturns := h.modify (f := fun din => { din with nlinks := din.nlinks + k }) hcache rfl rfl rfl rfl rfl
    hshaped.fits.size hshaped.fits.parent fun _ => rfl
  have hnlinks : v.tree.nlinks n = node.sin.din.nlinks := congrArg Tree.Record.nlinks hrecord
  rw [Tree.addLinks_eq, hrecord, hnlinks]
  exact hturns

/-- The number of entries of a directory is set. -/
lemma Sound.setSlots (hdir : node.sin.din.type = .dir) {f : Din → ℕ} (hf : f node.sin.din < 2 ^ 32) :
    v.Turns (v.tree.setSlots n (f node.sin.din)) (v.modify n fun din => { din with size := f din }) := by
  have hturns := h.modify (f := fun din => { din with size := f din }) hcache rfl rfl rfl rfl rfl hf
    (h.shaped_of_cache hcache).fits.parent fun hfile => nomatch hdir.symm.trans hfile
  have heq : ({ node.sin.din.record v.fs node.removed with slots := f node.sin.din } : Tree.Record) =
      Din.record v.fs { node.sin.din with size := f node.sin.din } node.removed :=
    Tree.Record.ext rfl rfl rfl (if_pos hdir).symm rfl rfl
  rw [Tree.setSlots_eq, h.record_of_cache hcache, heq]
  exact hturns

/-- So is its parent. -/
lemma Sound.setParent (hdir : node.sin.din.type = .dir)
    {d : ℕ} (hd : d < 2 ^ 32) : v.Turns (v.tree.setParent n d) (v.setParent n d) := by
  have hturns := h.modify (f := fun din => { din with parent := d }) hcache rfl rfl rfl rfl rfl
    (h.shaped_of_cache hcache).fits.size hd fun _ => rfl
  have heq : ({ node.sin.din.record v.fs node.removed with parent := d } : Tree.Record) =
      Din.record v.fs { node.sin.din with parent := d } node.removed :=
    Tree.Record.ext rfl rfl rfl rfl (if_pos hdir).symm rfl
  rw [Tree.setParent_eq, h.record_of_cache hcache, heq]
  exact hturns

/-- An inode in memory is referred to in another way, or marked as removed. -/
lemma Sound.setNode (node' : Node)
    (hsin : node'.sin = node.sin) (hcount : 0 < node'.ref ∧ node'.reclaimCount = 1) :
    (v.setNode n (some node')).Sound ∧
      (v.setNode n (some node')).tree =
        v.tree.setRecord n { v.tree.record n with removed := node'.removed } ∧
      v.Follows (v.setNode n (some node')) := by
  have hn := h.mem hcache
  have hdin := din_of_cache hcache
  have hshaped := h.shaped n hn
  have hkept : Kept v.fs (v.din n) v.fs node'.sin.din := by
    rw [hsin, hdin]
    exact Kept.refl h.ok (hdin ▸ h.held hn)
  rw [hdin, ← hsin] at hshaped
  rw [setNode_eq]
  obtain ⟨hsound, htree⟩ := h.replace hn node' hkept hshaped hcount fun hclean hlinks => by
    rw [hsin] at hclean hlinks ⊢
    exact h.backed n node hcache hclean hlinks
  refine ⟨hsound, ?_, rfl, h.tracked_replace hn node' hkept fun htracked hclean hlinks => ?_⟩
  · rw [htree, record_eq hn, hdin, hsin]
    rfl
  · rw [hsin] at hclean hlinks ⊢
    by_contra hdiff
    have hdirty := htracked n node hcache hlinks hdiff
    rw [hclean] at hdirty
    cases hdirty

end Vol

end UcoreKernel.Sfs
