import UcoreKernel.Fs.Sfs.Operations

/-!
`sfs_unlink` and `sfs_rename`: an inode loses a name, or it gets another one.

Both load the inode first, so that it stays in memory until the end, where that reference goes again.
-/

namespace UcoreKernel.Sfs

open UcoreKernel.Except (Ensures)
open Function

/-! ### Names that move -/

namespace Tree

variable {t : Tree} {d i n d' j : ℕ} {name newName : Name} {isdir : Bool}

/-- The name of an inode is cleared, and for a directory also the link to its parent. -/
def takeOut (t : Tree) (d i n : ℕ) (isdir : Bool) : Tree :=
  if isdir = true then t.detach d i n else t.unlink d i n

/-- The other direction. -/
def putIn (t : Tree) (d i : ℕ) (name : Name) (n : ℕ) (isdir : Bool) : Tree :=
  if isdir = true then t.attach d i name n else t.link d i name n

section

variable (t : Tree)

lemma putIn_true (d i : ℕ) (name : Name) (n : ℕ) :
    t.putIn d i name n true = ((t.link d i name n).addLinks d 1).setParent n d := rfl

lemma takeOut_true (d i n : ℕ) : t.takeOut d i n true = (t.unlink d i n).addLinks d (-1) := rfl

lemma takeOut_kind (d i n : ℕ) (isdir : Bool) : (t.takeOut d i n isdir).kind = t.kind := by
  cases isdir <;> rfl

lemma takeOut_links (d i n : ℕ) (isdir : Bool) (m : ℕ) :
    (t.takeOut d i n isdir).links m = (t.setEntry (d, i) none).links m := by
  cases isdir <;> rfl

end

section

variable (he : t.entry (d, i) = some (name, n)) (hn : t.kind n = some (if isdir = true then .dir else .file))
include he hn

lemma Change.takeOut : t.Change (t.takeOut d i n isdir) := by
  cases isdir with
  | true => exact .lose he hn
  | false => exact .unlink he hn

lemma Change.moveIn (hne : d ≠ d') (hroom : t.Room d' j newName) :
    t.Change ((t.takeOut d i n isdir).putIn d' j newName n isdir) := by
  cases isdir with
  | true => exact .moveDir he hn hne hroom
  | false => exact .move he hn hne hroom

end

/-- An inode that moves to another directory has the links that it had, unless it moves into itself. -/
lemma Wired.links_moveIn (h : t.Wired) (he : t.entry (d, i) = some (name, n))
    (hfree : t.entry (d', j) = none) (hne : d' ≠ n) :
    ((t.takeOut d i n isdir).putIn d' j newName n isdir).links n ≤ t.links n := by
  cases isdir with
  | true | false => exact h.links_move he hfree hne

end Tree

namespace Vol

variable {d n slot d' slot' : ℕ} {v v' v₁ : Vol} {node node' : Node} {name newName : Name} {t : Tree}
  {mem : ℕ → Bool}

/-- An operation has made its change, and it still has a reference to an inode. -/
structure Changed (v : Vol) (n : ℕ) (v₁ : Vol) : Prop extends v.Follows v₁ where
  sound : v₁.Sound
  change : v₁.tree = v.tree ∨ v.tree.Change v₁.tree
  exists_node : ∃ node, v₁.cache n = some node ∧ (node.ref = 1 → v₁.tree.links n ≤ 65535)

lemma Inv.refDec_changed (h : v.Inv) (hchanged : v.Changed n v₁) : ∃ v', v₁.refDec n = .ok v' ∧ v.After v' := by
  obtain ⟨node, hcache, hle⟩ := hchanged.exists_node
  exact h.refDec_after hchanged.sound hchanged.change hchanged.toFollows hcache hle

/-- The operation has come to its end. -/
lemma Loaded.changed_of_turns (h : v.Loaded n v₁) (hturns : v₁.Turns t v') (hchange : t = v.tree ∨ v.tree.Change t)
    (hle : ∀ node, v'.cache n = some node → node.ref = 1 → t.links n ≤ 65535) : v.Changed n v' := by
  obtain ⟨node, hcache⟩ := hturns.exists_cache h.isSome_self
  rw [← hturns.tree] at hchange hle
  exact ⟨h.toFollows.trans hturns.toFollows, hturns.sound, hchange, node, hcache, hle node hcache⟩

/-- It has come to its end without a change. -/
lemma Loaded.changed (h : v.Loaded n v₁) (hw : v.tree.NoWrap) (hturns : v₁.Turns v₁.tree v') : v.Changed n v' :=
  h.changed_of_turns hturns (.inl h.tree) fun _ _ _ => h.tree.symm ▸ hw n

/-! ### `sfs_unlink` -/

section

variable (h : v.Inv) (hw : v.tree.NoWrap)
include h hw

section

variable (hloaded : v.Loaded n v₁) (hcache : v.cache d = some node) (hdir : node.sin.din.type = .dir)
  (he : v.tree.entry (d, slot) = some (name, n))
include hloaded hcache hdir he

/-- The entry of an inode that is loaded is cleared. -/
lemma Inv.direntUnlink (mem : Bool) : Ensures Tolerated (v₁.direntUnlink mem d slot n) fun r =>
      (r.2 = none ∧ v₁.Turns (v.tree.unlink d slot n) r.1) ∨ ∃ err, r.2 = some err ∧ v₁.Turns v₁.tree r.1 := by
  obtain ⟨node1, hnode1, hdir1, -⟩ := hloaded.exists_dir hcache hdir
  have hrefs := h.names.one_le_refs he
  have hlinks : v.tree.nlinks n ≠ 0 := h.names.nlinks_ne_zero (hw n) (by rw [Tree.links]; omega)
  rw [← hloaded.tree] at he hlinks ⊢
  exact (hloaded.sound.direntUnlink (hloaded.tree ▸ h.names) hnode1 hdir1 hloaded.isSome_self he hlinks mem).tolerate
    fun _ => .inl

/-- A directory is removed. -/
lemma Inv.rmdir (hn : v.tree.kind n = some .dir) : Ensures Tolerated (v₁.rmdir mem d slot n) fun r => v.Changed n r.1 := by
  have hsame : v.Changed n v₁ := hloaded.changed hw (Turns.refl hloaded.sound)
  have hunlink := h.direntUnlink hw hloaded hcache hdir he (mem 3)
  obtain ⟨node1, hnode1, hdir1, -⟩ := hloaded.exists_dir hcache hdir
  obtain ⟨child, hchild⟩ := Option.isSome_iff_exists.mp hloaded.isSome_self
  rw [← hloaded.tree] at he hn hunlink
  have hok : v₁.tree.Ok := hloaded.tree ▸ h.names
  have hw1 : v₁.tree.NoWrap := hloaded.tree ▸ hw
  have hchildDir : child.sin.din.type = .dir :=
    Option.some.inj ((hloaded.sound.kind_of_cache hchild).symm.trans hn)
  have hlinks := hok.two_le_links he hn
  have hlinksDir := hok.two_le_links_dir he hn
  rw [Vol.rmdir]
  split_ifs with hremoved hself hempty
  · exact hsame
  · exact .inr (.inl rfl)
  · exact hsame
  · have hslots : v₁.tree.slots n = 0 := by
      rw [hloaded.sound.slots_dir hchild hchildDir]
      rw [din_of_cache hchild, not_not] at hempty
      exact hempty
    refine hunlink.bind fun r hr => ?_
    obtain ⟨v₂, err⟩ := r
    rcases hr with ⟨rfl, hturns⟩ | ⟨err, rfl, hturns⟩
    · dsimp only at hturns ⊢
      obtain ⟨child2, hchild2⟩ := hturns.exists_cache hloaded.isSome_self
      obtain ⟨node2, hnode2⟩ := hturns.exists_cache (n := d) (hnode1 ▸ rfl)
      -- the mark
      obtain ⟨hsound3, htree3, hfollows3⟩ := hturns.sound.setNode hchild2 { child2 with removed := true } rfl
        (hturns.sound.cached n child2 hchild2).2
      rw [← Tree.remove_eq, hturns.tree] at htree3
      rw [hchild2, Option.map_some]
      set v3 := v₂.setNode n (some { child2 with removed := true })
      have hchild3 : v3.cache n = some { child2 with removed := true } := update_self ..
      have hnode3 : v3.cache d = some node2 := (update_of_ne (Ne.symm hself) ..).trans hnode2
      -- the links of the directory and of its parent
      obtain ⟨v4, hdec4, hturns4⟩ := hsound3.nlinksDec hchild3 (by
        rw [htree3, Tree.remove_nlinks, Tree.unlink, Tree.nlinks_addLinks, if_pos rfl]
        exact hok.nlinks_sub_one_ne_zero (hw1 n) hlinks)
      obtain ⟨node4, hnode4⟩ := hturns4.exists_cache (n := d) (hnode3 ▸ rfl)
      obtain ⟨v5, hdec5, hturns5⟩ := hturns4.sound.nlinksDec hnode4 (by
        have hkeep : (v₁.tree.unlink d slot n).nlinks d = v₁.tree.nlinks d := by
          refine (Tree.nlinks_addLinks _).trans ?_
          rw [if_neg (Ne.symm hself), add_zero]
          rfl
        rw [hturns4.tree, htree3, Tree.nlinks_addLinks, if_neg (Ne.symm hself), add_zero, Tree.remove_nlinks, hkeep]
        exact hok.nlinks_ne_zero (hw1 d) (by omega))
      rw [hdec4, ok_bind, hdec5]
      have htree5 : v5.tree = v₁.tree.rmdir d slot n := by
        rw [hturns5.tree, hturns4.tree, htree3]
        rfl
      have hchange : v₁.tree.Change v5.tree := by
        rw [htree5]
        exact .rmdir he hn hself hslots
      have hgone : v5.tree.removed n = true := by
        rw [htree5]
        exact update_self ..
      obtain ⟨child5, hchild5⟩ := (hturns4.trans hturns5).exists_cache (n := n) (hchild3 ▸ rfl)
      have hfollows := hfollows3.trans (hturns4.toFollows.trans hturns5.toFollows)
      refine ⟨hloaded.toFollows.trans (hturns.toFollows.trans hfollows), hturns5.sound,
        .inr (hloaded.tree ▸ hchange), child5, hchild5, fun _ => ?_⟩
      rw [(hok.change hchange).links_of_removed hgone]
      exact Nat.zero_le _
    · exact hloaded.changed hw hturns

lemma Inv.unlinkLoaded : Ensures Tolerated (v₁.unlinkLoaded mem d slot n) fun r => v.Changed n r.1 := by
  obtain ⟨child, hchild⟩ := Option.isSome_iff_exists.mp hloaded.isSome_self
  have hmem := hloaded.sound.mem hchild
  have hkind := tree_kind hmem
  rw [hloaded.tree] at hkind
  rw [Vol.unlinkLoaded]
  split_ifs with htype
  · exact h.rmdir hw hloaded hcache hdir he (by rw [hkind, htype])
  · have hfile : v.tree.kind n = some .file := by
      rw [hkind, (hloaded.sound.shaped n hmem).type.resolve_left htype]
    refine (h.direntUnlink hw hloaded hcache hdir he (mem 3)).mono fun r hr => ?_
    obtain ⟨-, hturns⟩ | ⟨err, -, hturns⟩ := hr
    · exact hloaded.changed_of_turns hturns (.inr (.unlink he hfile)) fun _ _ _ =>
        (h.names.links_clear_le (d, slot) n).trans (hw n)
    · exact hloaded.changed hw hturns

end

lemma Inv.sfsUnlink (hd : v.HasDir d) : Ensures Tolerated (v.sfsUnlink mem d name) fun r => v.After r.1 := by
  obtain ⟨node, hcache, hdir⟩ := hd.exists_node
  rw [Vol.sfsUnlink]
  split_ifs with hname hdots hremoved
  any_goals exact After.refl h
  refine h.search hcache hdir (not_lt.mp hname) (fun _ => After.refl h) (fun slot n he => ?_) fun _ _ => After.refl h
  dsimp only
  obtain ⟨v₁, hload, hloaded⟩ | hload := h.sound.loadInode (h.mem_of_entry he) (mem 1) (mem 2)
  · rw [hload, ok_bind]
    refine (h.unlinkLoaded hw hloaded hcache hdir he).bind fun r hr => ?_
    obtain ⟨v', hdec, hafter⟩ := h.refDec_changed hr
    rw [hdec]
    exact hafter
  · rw [hload]
    exact After.refl h

end

/-! ### `sfs_rename` -/

/-- Within one directory. -/
lemma Inv.rename1 (h : v.Inv) (hcache : v.cache d = some node) (hdir : node.sin.din.type = .dir)
    (hname : name.strlen ≤ Name.maxFnameLen) (hnew : newName.strlen ≤ Name.maxFnameLen) :
    Ensures Tolerated (v.rename1 mem d name newName) fun r => v.After r.1 := by
  rw [Vol.rename1]
  split_ifs
  · exact After.refl h
  · refine h.search hcache hdir hname (fun _ => After.refl h) (fun slot n he => ?_) fun _ _ => After.refl h
    refine h.search hcache hdir hnew (fun _ => After.refl h) (fun _ _ _ => After.refl h) fun _ hslot' => ?_
    have hmem := h.mem_of_entry he
    have hslot : slot < node.sin.din.blocks :=
      lt_blocks_of_entries ((h.sound.entry_dir hcache hdir slot).symm.trans he)
    have hwrite := h.sound.rewriteEntry (e := ⟨n, newName⟩) hcache hdir hslot ⟨h.sound.lt_two_pow hmem, hnew⟩ (mem 2)
    refine (hwrite.tolerate fun _ => .inl).bind fun r hr => ?_
    obtain ⟨-, hturns⟩ | ⟨err, -, hturns⟩ := hr
    · rw [h.sound.listed hmem] at hturns
      exact hturns.after (.of_change (.rename he hslot'.2.2))
    · exact hturns.after (Tree.Turn.refl _)

/-- What a rename from one directory to another knows before it changes anything. -/
structure Moving (v : Vol) (d slot : ℕ) (name : Name) (n d' slot' : ℕ) (newName : Name) (node node' : Node) :
    Prop where
  cache : v.cache d = some node
  dir : node.sin.din.type = .dir
  cache' : v.cache d' = some node'
  dir' : node'.sin.din.type = .dir
  ne : d ≠ d'
  entry : v.tree.entry (d, slot) = some (name, n)
  fits : slot' ≤ node'.sin.din.blocks
  room : v.tree.Room d' slot' newName
  name : name.strlen ≤ Name.maxFnameLen
  newName : newName.strlen ≤ Name.maxFnameLen

section Move

variable {isdir : Bool} {v₂ : Vol}

/-- The old entry is put back, or the name is lost. -/
lemma Moving.moveBack (hm : v.Moving d slot name n d' slot' newName node node') (h : v.Inv)
    (hw : v.tree.NoWrap) (hloaded : v.Loaded n v₁)
    (hn : v.tree.kind n = some (if isdir = true then .dir else .file))
    (hturns : v₁.Turns (v.tree.takeOut d slot n isdir) v₂) :
    Ensures Tolerated (v₂.moveBack mem d slot n name isdir) fun v₃ => v.Changed n v₃ := by
  have hchange := Tree.Change.takeOut hm.entry hn
  have hslot : slot < node.sin.din.blocks :=
    lt_blocks_of_entries ((h.sound.entry_dir hm.cache hm.dir slot).symm.trans hm.entry)
  have hslots := h.names.slots_ne_zero hm.entry
  obtain ⟨node1, hnode1, hdir1, hblocks1⟩ := hloaded.exists_dir hm.cache hm.dir
  obtain ⟨node2, hnode2, hdir2, hblocks2⟩ := hturns.exists_dir hloaded.sound hnode1 hdir1 (by
    rw [Tree.takeOut_kind, hloaded.tree])
  have hok : v₂.tree.Ok := by
    rw [hturns.tree]
    exact h.names.change hchange
  have hlink := hturns.sound.direntLink hnode2 hdir2 (hturns.sound.slots_lt hok hnode2 hdir2)
    ((hturns.isSome n).trans hloaded.isSome_self) (show slot ≤ node2.sin.din.blocks by omega) hm.name (mem 6)
  rw [Vol.moveBack]
  refine (hlink.tolerate fun _ => .inl).bind fun r hr => ?_
  obtain ⟨v₃, err⟩ := r
  obtain ⟨rfl, hturns3⟩ | ⟨err, rfl, hturns3⟩ := hr
  · have hturns3 := hturns.trans hturns3
    cases isdir with
    | true =>
      obtain ⟨node3, hnode3⟩ := hturns3.exists_cache (n := d) (hnode1 ▸ rfl)
      have hall := hturns3.trans (hturns3.sound.nlinksInc hnode3)
      rw [hturns3.tree, hturns.tree] at hall
      have hback : ((v.tree.takeOut d slot n true).link d slot name n).addLinks d 1 = v.tree :=
        Tree.link_detach hm.entry hslots
      rw [hback, ← hloaded.tree] at hall
      exact hloaded.changed hw hall
    | false =>
      rw [hturns.tree] at hturns3
      have hback : (v.tree.takeOut d slot n false).link d slot name n = v.tree :=
        Tree.link_unlink hm.entry hslots
      rw [hback, ← hloaded.tree] at hturns3
      exact hloaded.changed hw hturns3
  · have hturns3 := hturns.trans hturns3
    rw [hturns.tree] at hturns3
    refine hloaded.changed_of_turns hturns3 (.inr hchange) fun _ _ _ => ?_
    rw [Tree.takeOut_links]
    exact (h.names.links_clear_le (d, slot) n).trans (hw n)

/-- An inode that is loaded, and that was in memory before, has two references. -/
lemma Loaded.two_le_ref (hloaded : v.Loaded n v₁) (hsound : v.Sound) (hcache : v.cache n = some node')
    (hturns : v₁.Turns t v₂) (hnode : v₂.cache n = some node) : 2 ≤ node.ref := by
  have hstatus := (hturns.status n).trans hloaded.status
  rw [status_of_cache hnode] at hstatus
  have href : node.ref = v.refs n + 1 := congrArg (fun s => s.2.1) (Option.some.inj hstatus)
  have hrefs : v.refs n = node'.ref := by
    rw [refs, hcache]
    rfl
  have hpos := (hsound.cached n node' hcache).2.1
  omega

variable (hm : v.Moving d slot name n d' slot' newName node node') (h : v.Inv) (hw : v.tree.NoWrap)
include hm h hw

/-- The entry is written into the new directory, or put back. -/
lemma Moving.moveTo (hloaded : v.Loaded n v₁) (hn : v.tree.kind n = some (if isdir = true then .dir else .file))
    (hturns : v₁.Turns (v.tree.takeOut d slot n isdir) v₂) :
    Ensures Tolerated (v₂.moveTo mem d slot name n d' slot' newName isdir) fun r => v.Changed n r.1 := by
  have hok : v₂.tree.Ok := by
    rw [hturns.tree]
    exact h.names.change (.takeOut hm.entry hn)
  obtain ⟨node1, hnode1, hdir1, hblocks1⟩ := hloaded.exists_dir hm.cache' hm.dir'
  obtain ⟨node2, hnode2, hdir2, hblocks2⟩ := hturns.exists_dir hloaded.sound hnode1 hdir1 (by
    rw [Tree.takeOut_kind, hloaded.tree])
  have hslot := hm.fits
  have hlink := hturns.sound.direntLink hnode2 hdir2 (hturns.sound.slots_lt hok hnode2 hdir2)
    ((hturns.isSome n).trans hloaded.isSome_self) (show slot' ≤ node2.sin.din.blocks by omega) hm.newName (mem 5)
  rw [Vol.moveTo]
  refine (hlink.tolerate fun _ => .inl).bind fun r hr => ?_
  obtain ⟨v3, err⟩ := r
  obtain ⟨rfl, hturns3⟩ | ⟨err, rfl, hturns3⟩ := hr
  · -- the new tree, and the references to the inode
    have hfinish : ∀ v4, v₁.Turns ((v.tree.takeOut d slot n isdir).putIn d' slot' newName n isdir) v4 →
        v.Changed n v4 := by
      intro v4 hturns4
      refine hloaded.changed_of_turns hturns4 (.inr (.moveIn hm.entry hn hm.ne hm.room)) fun child hchild href => ?_
      by_cases hself : d' = n
      · have hcache : v.cache n = some node' := hself ▸ hm.cache'
        have htwo := hloaded.two_le_ref h.sound hcache hturns4 hchild
        omega
      · exact (h.names.links_moveIn hm.entry hm.room.free hself).trans (hw n)
    have hturns3 := hturns.trans hturns3
    rw [hturns.tree] at hturns3
    cases isdir with
    | true =>
      obtain ⟨node3, hnode3⟩ := hturns3.exists_cache (n := d') (hnode1 ▸ rfl)
      have hinc := hturns3.trans (hturns3.sound.nlinksInc hnode3)
      rw [hturns3.tree] at hinc
      obtain ⟨child, hchild⟩ := hinc.exists_cache hloaded.isSome_self
      have hdir : child.sin.din.type = .dir := by
        have hkind := hinc.sound.kind_of_cache hchild
        rw [hinc.tree] at hkind
        exact Option.some.inj (hkind.symm.trans hn)
      have hall := hinc.trans (hinc.sound.setParent hchild hdir (h.sound.lt_two_pow (h.sound.mem hm.cache')))
      rw [hinc.tree, ← Tree.putIn_true] at hall
      exact hfinish _ hall
    | false =>
      exact hfinish _ hturns3
  · have hturns3 := hturns.trans hturns3
    rw [hturns.tree] at hturns3
    exact (hm.moveBack h hw hloaded hn hturns3).bind fun v4 hchanged => hchanged

lemma Moving.move (hloaded : v.Loaded n v₁) :
    Ensures Tolerated (v₁.move mem d slot name n d' slot' newName) fun r => v.Changed n r.1 := by
  obtain ⟨node1, hnode1, -⟩ := hloaded.exists_dir hm.cache hm.dir
  rw [Vol.move]
  refine (h.direntUnlink hw hloaded hm.cache hm.dir hm.entry (mem 4)).bind fun r hr => ?_
  obtain ⟨v₂, err⟩ := r
  obtain ⟨rfl, hturns⟩ | ⟨err, rfl, hturns⟩ := hr
  · dsimp only at hturns ⊢
    obtain ⟨child, hchild⟩ := hturns.exists_cache hloaded.isSome_self
    have hmem := hturns.sound.mem hchild
    have hkind : v.tree.kind n = some (v₂.din n).type := by
      rw [← tree_kind hmem, hturns.tree]
      rfl
    split_ifs with htype
    · have hn : v.tree.kind n = some .dir := by rw [hkind, htype]
      have hlinksDir := h.names.two_le_links_dir hm.entry hn
      obtain ⟨node2, hnode2⟩ := hturns.exists_cache (n := d) (hnode1 ▸ rfl)
      obtain ⟨v3, hdec, hturns3⟩ := hturns.sound.nlinksDec hnode2 (by
        rw [hturns.tree, Tree.unlink, Tree.nlinks_addLinks]
        change v.tree.nlinks d + _ ≠ 0
        split_ifs
        · exact h.names.nlinks_sub_one_ne_zero (hw d) hlinksDir
        · rw [add_zero]
          exact h.names.nlinks_ne_zero (hw d) (by omega))
      have hturns3 := hturns.trans hturns3
      rw [hturns.tree, ← Tree.takeOut_true] at hturns3
      rw [hdec, ok_bind]
      exact hm.moveTo h hw hloaded hn hturns3
    · have hn : v.tree.kind n = some .file := by
        rw [hkind, (hturns.sound.shaped n hmem).type.resolve_left htype]
      exact hm.moveTo h hw hloaded hn hturns
  · exact hloaded.changed hw hturns

end Move

variable (h : v.Inv) (hw : v.tree.NoWrap)
include h hw

/-- From one directory to another. -/
lemma Inv.rename2 (hcache : v.cache d = some node)
    (hdir : node.sin.din.type = .dir) (hcache' : v.cache d' = some node') (hdir' : node'.sin.din.type = .dir)
    (hne : d ≠ d') (hremoved' : v.removed d' ≠ true) (hname : name.strlen ≤ Name.maxFnameLen)
    (hnew : newName.strlen ≤ Name.maxFnameLen) :
    Ensures Tolerated (v.rename2 mem d name d' newName) fun r => v.After r.1 := by
  refine h.search hcache hdir hname (fun _ => After.refl h) (fun slot n he => ?_) fun _ _ => After.refl h
  refine h.search hcache' hdir' hnew (fun _ => After.refl h) (fun _ _ _ => After.refl h) fun slot' hslot' => ?_
  have hm : v.Moving d slot name n d' slot' newName node node' := ⟨hcache, hdir, hcache', hdir', hne,
    he, hslot'.1, h.room hcache' hdir' hremoved' hslot', hname, hnew⟩
  dsimp only
  obtain ⟨v₁, hload, hloaded⟩ | hload := h.sound.loadInode (h.mem_of_entry he) (mem 2) (mem 3)
  · rw [hload, ok_bind]
    refine (hm.move h hw hloaded).bind fun r hr => ?_
    obtain ⟨v', hdec, hafter⟩ := h.refDec_changed hr
    rw [hdec]
    exact hafter
  · rw [hload]
    exact After.refl h

lemma Inv.sfsRename (hd : v.HasDir d) (hd' : v.HasDir d') :
    Ensures Tolerated (v.sfsRename mem d name d' newName) fun r => v.After r.1 := by
  obtain ⟨node, hcache, hdir⟩ := hd.exists_node
  obtain ⟨node', hcache', hdir'⟩ := hd'.exists_node
  rw [Vol.sfsRename]
  split_ifs with hlen hdots hdots' hremoved hsame hremoved'
  any_goals exact After.refl h
  all_goals obtain ⟨hname, hnew⟩ := not_or.mp hlen
  · exact h.rename1 hcache hdir (not_lt.mp hname) (not_lt.mp hnew)
  · exact h.rename2 hw hcache hdir hcache' hdir' hsame hremoved' (not_lt.mp hname) (not_lt.mp hnew)

end Vol

end UcoreKernel.Sfs
