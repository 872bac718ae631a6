import UcoreKernel.Fs.Sfs.Lifetime

/-!
The entries of a directory in memory: searching for a name, entering a name and clearing one, as changes
of the names on the volume.
-/

namespace UcoreKernel.Sfs

open ByteBlock PointerTree Tally

variable {fs' : Fs} {sin' : Sin} {d n m slot : ℕ} {v v' : Vol} {node : Node} {name : Name}

/-! ### How many entries there can be -/

/-- There are far fewer blocks than a word can count. -/
lemma Mapped.blocks_lt {fs : Fs} {sin : Sin} (h : Mapped fs sin) : sin.din.blocks < 2 ^ 31 := by
  by_contra hlarge
  obtain ⟨p, hp, -⟩ := h.mapped (2 ^ 31 - 1) (by omega)
  unfold Pos.ofIndex at hp
  split_ifs at hp with hdirect hind hdb
  · unfold ndirect at hdirect
    omega
  · unfold ndirect nentry blkSize at hind
    omega
  · unfold ndirect nentry blkSize at hdb
    omega

namespace Vol

section

variable (h : v.Sound) (hcache : v.cache d = some node) (hdir : node.sin.din.type = .dir)
include h hcache hdir

/-- What is known about a directory in memory. -/
lemma Sound.record_dir :
    v.tree.record d = ⟨some .dir, node.sin.din.nlinks, entries v.fs node.sin.din, node.sin.din.size,
      node.sin.din.parent, node.removed⟩ := by
  rw [h.record_of_cache hcache]
  exact Tree.Record.ext (congrArg some hdir) rfl (funext fun _ => if_pos hdir) (if_pos hdir) (if_pos hdir) rfl

lemma Sound.entry_dir (i : ℕ) : v.tree.entry (d, i) = entries v.fs node.sin.din i :=
  congrFun (congrArg Tree.Record.entry (h.record_dir hcache hdir)) i

lemma Sound.slots_dir :
    v.tree.slots d = node.sin.din.size := congrArg Tree.Record.slots (h.record_dir hcache hdir)

end

/-- The number of entries of a directory can be counted. -/
lemma Sound.slots_lt (h : v.Sound) (hok : v.tree.Ok) (hcache : v.cache d = some node)
    (hdir : node.sin.din.type = .dir) : node.sin.din.size < 2 ^ 31 := by
  have hmapped := h.mapped (h.mem hcache)
  rw [sin_of_cache hcache] at hmapped
  have hblocks := hmapped.blocks_lt
  have hsub : {x | Tree.Fills d x (v.tree.entry x)} ⊆
      (fun i => (d, i)) '' (Finset.range node.sin.din.blocks) := by
    rintro ⟨d', i⟩ ⟨rfl, hne⟩
    refine ⟨i, ?_, rfl⟩
    rw [h.entry_dir hcache hdir] at hne
    grind [entries_eq_none_of_le]
  have hocc : v.tree.occupied d ≤ node.sin.din.blocks := by
    refine (Set.ncard_le_ncard hsub ((Finset.finite_toSet _).image _)).trans ?_
    grind [Set.ncard_image_le, Finset.finite_toSet, Set.ncard_coe_finset]
  rw [← h.slots_dir hcache hdir, hok.slots]
  omega

/-! ### Searching -/

variable (h : v.Sound) (hcache : v.cache d = some node) (hdir : node.sin.din.type = .dir)
include h hcache hdir

lemma Sound.search (mem : Bool) (hname : name.strlen ≤ Name.maxFnameLen) :
    ∃ result, v.search mem d name = .ok (v, result) ∧
      Searched (fun i => v.tree.entry (d, i)) node.sin.din.blocks name result := by
  have hmapped := h.mapped (h.mem hcache)
  rw [sin_of_cache hcache] at hmapped
  obtain ⟨result, hsearch, hresult⟩ := direntSearch_spec mem hmapped hdir hname
  have hself := put_self hcache
  rw [sin_of_cache hcache] at hself
  refine ⟨result, ?_, ?_⟩
  · rw [Vol.search, sin_of_cache hcache, hsearch, ok_bind]
    dsimp only
    rw [hself]
    rfl
  · rw [funext (h.entry_dir hcache hdir)]
    exact hresult

/-! ### Writing an entry -/

/-- A directory gets other entries, with the blocks for them. -/
lemma Sound.put_dir (hmapped : Mapped fs' sin') (hresized : Resized v.fs node.sin fs' sin')
    (hsize : sin'.din.size < 2 ^ 32) (hgrows : node.sin.din.blocks ≤ sin'.din.blocks)
    (hclean : sin'.dirty = false → sin'.din.blocks = node.sin.din.blocks) :
    v.Turns (v.tree.setRecord d { v.tree.record d with
      entry := entries fs' sin'.din, slots := sin'.din.size }) (v.put d fs' sin') := by
  have hdir' : sin'.din.type = .dir := hresized.type.trans hdir
  have hlinks := hresized.nlinks
  have hparent : sin'.din.parent = node.sin.din.parent := by rw [hresized.same]
  obtain ⟨hsound, htree, hstatus, hothers, htracked⟩ := h.put hcache hmapped hresized hsize
    (fun hfile => nomatch hdir'.symm.trans hfile) fun _ => hclean
  refine ⟨⟨hresized.kept.blocks, htracked hclean⟩, hsound, ?_, hstatus, fun m hm => ?_⟩
  · rw [htree, h.record_dir hcache hdir]
    refine congrArg _ (Tree.Record.ext (congrArg some hdir') hlinks (funext fun _ => if_pos hdir')
      (if_pos hdir') ?_ rfl)
    exact (if_pos hdir').trans hparent
  · grind [din_of_cache, put_eq, replace_din]

end Vol

/-- An entry of a directory is replaced, and the number of entries. -/
lemma Tree.setSlots_setEntry_eq (t : Tree) (d i k : ℕ) (e : Option (Name × ℕ)) :
    (t.setEntry (d, i) e).setSlots d k = t.setRecord d { t.record d with
      entry := Function.update (t.record d).entry i e, slots := k } := by
  rw [setSlots_eq, setEntry_eq, setRecord_setRecord, record_setRecord, if_pos rfl]

namespace Vol

section

variable (h : v.Sound) (hcache : v.cache d = some node) (hdir : node.sin.din.type = .dir)
include h hcache hdir

/-- There was no space for an entry. -/
lemma Sound.put_failed (hmapped : Mapped fs' sin') (hremapped : Remapped v.fs node.sin fs' sin')
    (hblocks : sin'.din.blocks = node.sin.din.blocks)
    (hentries : entries fs' sin'.din = entries v.fs node.sin.din) : v.Turns v.tree (v.put d fs' sin') := by
  have hshaped := h.shaped d (h.mem hcache)
  rw [din_of_cache hcache] at hshaped
  have hturns := h.put_dir hcache hdir hmapped hremapped.toResized
    (by rw [hremapped.size]; exact hshaped.fits.size) hblocks.ge fun _ => hblocks
  have hrecord := h.record_dir hcache hdir
  have hsame : ({ v.tree.record d with entry := entries fs' sin'.din, slots := sin'.din.size } :
      Tree.Record) = v.tree.record d := by
    rw [hrecord, hentries, hremapped.size]
  rw [hsame, Tree.setRecord_self] at hturns
  exact hturns

/-- What is written over an entry that is there. -/
lemma Sound.rewriteEntry (hslot : slot < node.sin.din.blocks) {e : Dirent} (he : e.Fits) (mem : Bool) :
    Except.Ensures (· = .nentry) (direntWrite mem v.fs (v.sin d) slot e) fun r =>
      (r.2.2 = none ∧ v.Turns (v.tree.setEntry (d, slot) e.listed) (v.put d r.1 r.2.1)) ∨
        ∃ err, r.2.2 = some err ∧ v.Turns v.tree (v.put d r.1 r.2.1) := by
  have hmapped := h.mapped (h.mem hcache)
  have hshaped := h.shaped d (h.mem hcache)
  rw [sin_of_cache hcache] at hmapped ⊢
  rw [din_of_cache hcache] at hshaped
  refine (direntWrite_spec mem hmapped hdir hslot.le he).mono fun r hwrote => ?_
  obtain ⟨herr, hblocks, hentries⟩ | ⟨herr, hblocks, hentries⟩ := hwrote.ended
  · refine .inl ⟨herr, ?_⟩
    have hblocks : r.2.1.din.blocks = node.sin.din.blocks := by omega
    have hturns := h.put_dir hcache hdir hwrote.mapped hwrote.remapped.toResized
      (by rw [hwrote.remapped.size]; exact hshaped.fits.size) hblocks.ge fun _ => hblocks
    have hrecord := h.record_dir hcache hdir
    have heq : v.tree.setEntry (d, slot) e.listed = v.tree.setRecord d { v.tree.record d with
        entry := entries r.1 r.2.1.din, slots := r.2.1.din.size } := by
      rw [Tree.setEntry_eq, hrecord, hentries, hwrote.remapped.size]
    rw [heq]
    exact hturns
  · exact .inr ⟨.noMem, herr, h.put_failed hcache hdir hwrote.mapped hwrote.remapped hblocks hentries⟩

end

/-! ### Entering and clearing names -/

/-- The number of an inode fits an entry. -/
lemma Sound.lt_two_pow (h : v.Sound) (hn : n ∈ v.inodes) : n < 2 ^ 32 :=
  (h.used hn).2.1.trans_le h.ok.blocks

lemma Sound.listed (h : v.Sound) (hn : n ∈ v.inodes) (name : Name) :
    Dirent.listed ⟨n, name⟩ = some (name, n) := if_neg (h.ne_zero hn)

/-- A name is entered in a directory, or there is no space for it. -/
lemma Sound.direntLink (h : v.Sound) (hcache : v.cache d = some node) (hdir : node.sin.din.type = .dir)
    (hlt : node.sin.din.size < 2 ^ 31) (hn : (v.cache n).isSome = true) (hslot : slot ≤ node.sin.din.blocks)
    (hname : name.strlen ≤ Name.maxFnameLen) (mem : Bool) :
    Except.Ensures (· = .nentry) (v.direntLink mem d slot n name) fun r =>
      (r.2 = none ∧ v.Turns (v.tree.link d slot name n) r.1) ∨ ∃ err, r.2 = some err ∧ v.Turns v.tree r.1 := by
  obtain ⟨node', hnode'⟩ := Option.isSome_iff_exists.mp hn
  have hmem := h.mem hnode'
  have hmapped := h.mapped (h.mem hcache)
  rw [sin_of_cache hcache] at hmapped
  have hfits : Dirent.Fits ⟨n, name⟩ := ⟨h.lt_two_pow hmem, hname⟩
  rw [Vol.direntLink, sin_of_cache hcache]
  refine (direntWrite_spec mem hmapped hdir hslot hfits).bind fun r hwrote => ?_
  obtain ⟨fs1, sin1, err⟩ := r
  obtain ⟨rfl, hblocks, hentries⟩ | ⟨rfl, hblocks, hentries⟩ := hwrote.ended
  · dsimp only at hwrote hblocks hentries ⊢
    have hsize := hwrote.remapped.size
    set din1 : Din := { sin1.din with size := sin1.din.size + 1 } with hdin1
    have hptrs : ptrs fs1 din1 = ptrs fs1 sin1.din := ptrs_congr rfl rfl rfl
    have hkept := hwrote.remapped.kept
    have hheld : Held fs1 din1 := by
      rw [Held, hptrs]
      exact hkept.held
    have hmapped1 : Mapped fs1 ⟨din1, true⟩ := by
      refine ⟨hkept.ok, hheld, ?_⟩
      rw [hptrs]
      exact hwrote.mapped.mapped
    have hresized : Resized v.fs node.sin fs1 ⟨din1, true⟩ := by
      refine ⟨⟨hkept.ok, hheld, hkept.blocks, ?_, hkept.keep⟩, ?_, by simp⟩
      · rw [hptrs]
        exact hkept.fresh
      · change din1 = _
        rw [hdin1, hwrote.remapped.same]
    have hturns := h.put_dir hcache hdir hmapped1 hresized (by simp only [hdin1]; omega)
      (by simp only [hdin1]; omega) (by simp)
    have htree : (v.tree.setEntry (d, slot) (some (name, n))).setSlots d (v.tree.slots d + 1) =
        v.tree.setRecord d { v.tree.record d with entry := entries fs1 din1, slots := sin1.din.size + 1 } := by
      have hcontent : entries fs1 din1 = entries fs1 sin1.din := entries_congr (content_congr hptrs) rfl
      rw [Tree.setSlots_setEntry_eq, hcontent, hentries, h.listed hmem, h.slots_dir hcache hdir, hsize,
        h.record_dir hcache hdir]
    rw [← htree] at hturns
    obtain ⟨node1, hnode1⟩ := hturns.exists_cache hn
    have hlinks := hturns.sound.addLinks hnode1 1
    rw [hturns.tree] at hlinks
    exact .inl ⟨rfl, hturns.trans hlinks⟩
  · exact .inr ⟨.noMem, rfl, h.put_failed hcache hdir hwrote.mapped hwrote.remapped hblocks hentries⟩

lemma modify_nlinks_sub (v : Vol) (n : ℕ) : (v.modify n fun din => { din with nlinks := din.nlinks - 1 }) =
      v.modify n fun din => { din with nlinks := din.nlinks + -1 } := by
  simp only [sub_eq_add_neg]

/-- A name is cleared. -/
lemma Sound.direntUnlink (h : v.Sound) (hok : v.tree.Ok) (hcache : v.cache d = some node)
    (hdir : node.sin.din.type = .dir) (hn : (v.cache n).isSome = true)
    (he : v.tree.entry (d, slot) = some (name, n)) (hlinks : v.tree.nlinks n ≠ 0) (mem : Bool) :
    Except.Ensures (· = .nentry) (v.direntUnlink mem d slot n) fun r =>
      (r.2 = none ∧ v.Turns (v.tree.unlink d slot n) r.1) ∨ ∃ err, r.2 = some err ∧ v.Turns v.tree r.1 := by
  have hslot : slot < node.sin.din.blocks := by
    rw [h.entry_dir hcache hdir] at he
    exact lt_blocks_of_entries he
  have hfits : Dirent.empty.Fits := ⟨by decide, by decide⟩
  rw [Vol.direntUnlink]
  refine (h.rewriteEntry hcache hdir hslot hfits mem).bind fun r hr => ?_
  obtain ⟨fs1, sin1, err⟩ := r
  obtain ⟨herr, hturns⟩ | ⟨err', herr, hturns⟩ := hr
  · obtain rfl := herr
    dsimp only at hturns ⊢
    have hclear : v.Turns (v.tree.setEntry (d, slot) none) (v.put d fs1 sin1) := hturns
    obtain ⟨node1, hnode1⟩ := hclear.exists_cache (n := d) (hcache ▸ rfl)
    obtain ⟨node2, hnode2⟩ := hclear.exists_cache hn
    have hdir1 : node1.sin.din.type = .dir := by
      have hkind : (v.put d fs1 sin1).tree.kind d = v.tree.kind d := by
        rw [hclear.tree]
        rfl
      rw [tree_kind (hclear.sound.mem hnode1), tree_kind (h.mem hcache),
        din_of_cache hnode1, din_of_cache hcache, hdir] at hkind
      exact Option.some.inj hkind
    have hslots1 : node1.sin.din.size = v.tree.slots d := by
      rw [← hclear.sound.slots_dir hnode1 hdir1, hclear.tree]
      rfl
    have hlinks1 : node2.sin.din.nlinks = v.tree.nlinks n := by
      rw [← din_of_cache hnode2, ← tree_nlinks (hclear.sound.mem hnode2), hclear.tree]
      rfl
    have hne : ¬((((v.put d fs1 sin1).din d).slots = 0) ∨ ((v.put d fs1 sin1).din n).nlinks = 0) := by
      rw [din_of_cache hnode1, din_of_cache hnode2, hlinks1, Din.slots, hslots1]
      exact not_or.mpr ⟨hok.slots_ne_zero he, hlinks⟩
    rw [if_neg hne]
    have hlt : node1.sin.din.size - 1 < 2 ^ 32 := by
      have hfits := (hclear.sound.shaped d (hclear.sound.mem hnode1)).fits.size
      rw [din_of_cache hnode1] at hfits
      omega
    have hsub := hclear.sound.setSlots (f := fun din => din.size - 1) hnode1 hdir1 hlt
    have hturns2 := hclear.trans hsub
    obtain ⟨node3, hnode3⟩ := hturns2.exists_cache hn
    have hdec := hturns2.sound.addLinks hnode3 (-1)
    rw [hturns2.tree, hclear.tree, hslots1, ← modify_nlinks_sub] at hdec
    exact .inl ⟨rfl, hturns2.trans hdec⟩
  · obtain rfl := herr
    exact .inr ⟨err', rfl, hturns⟩

variable (h : v.Sound) (hcache : v.cache n = some node)
include h hcache

/-- One link more. -/
lemma Sound.nlinksInc : v.Turns (v.tree.addLinks n 1) (v.nlinksInc n) := h.addLinks hcache 1

/-- One link less. -/
lemma Sound.nlinksDec (hlinks : v.tree.nlinks n ≠ 0) :
    ∃ v', v.nlinksDec n = .ok v' ∧ v.Turns (v.tree.addLinks n (-1)) v' := by
  rw [tree_nlinks (h.mem hcache)] at hlinks
  refine ⟨_, by rw [Vol.nlinksDec, if_neg hlinks], ?_⟩
  rw [modify_nlinks_sub]
  exact h.addLinks hcache (-1)

end Vol

end UcoreKernel.Sfs
