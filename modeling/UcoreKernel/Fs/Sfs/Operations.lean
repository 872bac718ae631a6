import UcoreKernel.Fs.Sfs.Entries

/-!
What the operations on names do to a volume in order, as long as no inode has more links than `nlinks` can
count.
-/

namespace UcoreKernel.Sfs

open UcoreKernel.Except (Ensures)
open ByteBlock PointerTree

namespace Vol

variable {d n slot : ℕ} {v v' v₁ : Vol} {node : Node} {name : Name} {t : Tree} {mem : ℕ → Bool}

/-- A volume in order. -/
structure Inv (v : Vol) : Prop where
  sound : v.Sound
  names : v.tree.Ok
  parents : v.tree.Parented

/-- What an operation leaves behind. -/
structure After (v v' : Vol) : Prop extends v.Follows v' where
  sound : v'.Sound
  turn : v.tree.Turn v'.tree

/-- The failures that a volume in order does not exclude: a directory or a file gets too large, a transfer
starts behind the end, a file with missing blocks is truncated, or a directory lists itself. -/
def Tolerated (p : Panic) : Prop :=
  p = .nentry ∨ p = .selfLock ∨ p = .loadIndex ∨ p = .truncfileBlocks

lemma Inv.of_turn (h : v.Inv) (hsound : v'.Sound) (hturn : v.tree.Turn v'.tree) : v'.Inv :=
  ⟨hsound, h.names.turn hturn, h.parents.turn h.names hturn⟩

lemma After.refl (h : v.Inv) : v.After v := ⟨Follows.refl v, h.sound, Tree.Turn.refl _⟩

lemma Turns.after (h : v.Turns t v') (hturn : v.tree.Turn t) : v.After v' :=
  ⟨h.toFollows, h.sound, h.tree ▸ hturn⟩

lemma Loaded.after (h : v.Loaded n v') : v.After v' := 
  ⟨h.toFollows, h.sound, h.tree ▸ Tree.Turn.refl _⟩

/-! ### Directories in memory -/

lemma HasDir.exists_node (h : v.HasDir d) : ∃ node, v.cache d = some node ∧ node.sin.din.type = .dir := by
  obtain ⟨node, hcache⟩ := Option.isSome_iff_exists.mp h.1
  have hdir := h.2
  grind [din_of_cache]

lemma Sound.kind_of_cache (h : v.Sound) (hcache : v.cache n = some node) :
    v.tree.kind n = some node.sin.din.type := by
  rw [tree_kind (h.mem hcache), din_of_cache hcache]

/-- A directory that is in memory, with at least the blocks that it had. -/
lemma Turns.exists_dir (h : v.Turns t v') (hsound : v.Sound) (hcache : v.cache d = some node)
    (hdir : node.sin.din.type = .dir) (hkind : t.kind d = v.tree.kind d) :
    ∃ node', v'.cache d = some node' ∧ node'.sin.din.type = .dir ∧
      node.sin.din.blocks ≤ node'.sin.din.blocks := by
  obtain ⟨node', hcache'⟩ := h.exists_cache (n := d) (hcache ▸ rfl)
  have hkind' := h.sound.kind_of_cache hcache'
  rw [h.tree, hkind, hsound.kind_of_cache hcache, hdir] at hkind'
  have hgrows := h.grows d (hcache ▸ rfl)
  grind [din_of_cache]

lemma Loaded.isSome_self (h : v.Loaded n v') : (v'.cache n).isSome = true := by
  rw [← isSome_status, h.status]
  rfl

lemma Loaded.isSome (h : v.Loaded n v') {m : ℕ} (hm : (v.cache m).isSome = true) :
    (v'.cache m).isSome = true := by
  obtain rfl | hmn := eq_or_ne m n
  · exact h.isSome_self
  · rw [← isSome_status, h.others m hmn, isSome_status, hm]

/-- The directories that were in memory are as they were. -/
lemma Loaded.exists_dir (h : v.Loaded n v') (hcache : v.cache d = some node)
    (hdir : node.sin.din.type = .dir) : ∃ node', v'.cache d = some node' ∧ node'.sin.din.type = .dir ∧
      node.sin.din.blocks = node'.sin.din.blocks := by
  have hsome : (v.cache d).isSome = true := by rw [hcache]; rfl
  obtain ⟨node', hcache'⟩ := Option.isSome_iff_exists.mp (h.isSome hsome)
  have hsame := h.same d hsome
  grind [din_of_cache]

section

variable (h : v.Inv)
include h

/-- An inode that is named is there. -/
lemma Inv.mem_of_entry {x : ℕ × ℕ} (he : v.tree.entry x = some (name, n)) : n ∈ v.inodes := by
  obtain ⟨type, htype⟩ := Option.ne_none_iff_exists'.mp (h.names.closed x name n he).1
  exact mem_of_kind htype

/-- There is room for a name that the search has not found. -/
lemma Inv.room (hcache : v.cache d = some node) (hdir : node.sin.din.type = .dir)
    (hremoved : v.removed d ≠ true) (hmissing : slot ≤ node.sin.din.blocks ∧ v.tree.entry (d, slot) = none ∧
      ∀ i ino, v.tree.entry (d, i) ≠ some (name, ino)) : v.tree.Room d slot name where
  dir := by rw [h.sound.kind_of_cache hcache, hdir]
  removed := by
    change v.removed d = false
    simpa using hremoved
  free := hmissing.2.1
  name := hmissing.2.2

/-- What follows on a search for a name. -/
lemma Inv.search {α : Type} {Q : Vol × α → Prop} {f : Vol × Search → Except Panic (Vol × α)}
    (hcache : v.cache d = some node) (hdir : node.sin.din.type = .dir) (hname : name.strlen ≤ Name.maxFnameLen)
    {m : Bool} (hfailed : ∀ err, Ensures Tolerated (f (v, .failed err)) Q)
    (hfound : ∀ slot n, v.tree.entry (d, slot) = some (name, n) → Ensures Tolerated (f (v, .found slot n)) Q)
    (hmissing : ∀ slot, slot ≤ node.sin.din.blocks ∧ v.tree.entry (d, slot) = none ∧
      (∀ i ino, v.tree.entry (d, i) ≠ some (name, ino)) → Ensures Tolerated (f (v, .missing slot)) Q) :
    Ensures Tolerated (v.search m d name >>= f) Q := by
  obtain ⟨result, hsearch, hresult⟩ := h.sound.search hcache hdir m hname
  rw [hsearch, ok_bind]
  cases result with
  | failed err => exact hfailed err
  | found slot n => exact hfound slot n hresult
  | missing slot => exact hmissing slot hresult

/-- The reference that an operation took goes, after the change that it made. -/
lemma Inv.refDec_after (hsound : v₁.Sound) (hchange : v₁.tree = v.tree ∨ v.tree.Change v₁.tree)
    (hfollows : v.Follows v₁) (hcache : v₁.cache n = some node)
    (hle : node.ref = 1 → v₁.tree.links n ≤ 65535) : ∃ v', v₁.refDec n = .ok v' ∧ v.After v' := by
  have hok : v₁.tree.Ok := by
    obtain heq | hchange := hchange
    · rw [heq]
      exact h.names
    · exact h.names.change hchange
  obtain ⟨v', hdec, hsound', htree, hfollows'⟩ := hsound.refDec hok hcache fun href h0 =>
    hok.links_eq_zero (hle href) h0
  refine ⟨v', hdec, hfollows.trans hfollows', hsound', v₁.tree, hchange, ?_⟩
  grind

/-! ### Looking up -/

lemma Inv.loadInode (hn : n ∈ v.inodes) (mem₁ mem₂ : Bool) :
    ∃ r, v.loadInode mem₁ mem₂ n = .ok r ∧ v.After r.1 := by
  obtain ⟨v', hload, hloaded⟩ | hload := h.sound.loadInode hn mem₁ mem₂
  · exact ⟨_, hload, hloaded.after⟩
  · exact ⟨_, hload, After.refl h⟩

lemma Inv.sfsLookupOnce (hd : v.HasDir d) (hname : name.strlen ≤ Name.maxFnameLen) :
    ∃ r, v.sfsLookupOnce mem d name = .ok r ∧ v.After r.1 := by
  obtain ⟨node, hcache, hdir⟩ := hd.exists_node
  rw [Vol.sfsLookupOnce]
  split_ifs
  · exact ⟨_, rfl, After.refl h⟩
  · obtain ⟨result, hsearch, hresult⟩ := h.sound.search hcache hdir (mem 0) hname
    rw [hsearch, ok_bind]
    cases result with
    | failed | missing => exact ⟨_, rfl, After.refl h⟩
    | found slot ino =>
      obtain ⟨⟨v', err⟩, hload, hafter⟩ := h.loadInode (h.mem_of_entry hresult) (mem 1) (mem 2)
      dsimp only
      rw [hload, ok_bind]
      cases err with
      | some | none => exact ⟨_, rfl, hafter⟩

/-! ### `sfs_create` -/

lemma Inv.createFound (hw : v.tree.NoWrap) (hn : n ∈ v.inodes) (excl : Bool) :
    ∃ r, v.createFound mem n excl = .ok r ∧ v.After r.1 := by
  rw [Vol.createFound]
  split_ifs
  · exact ⟨_, rfl, After.refl h⟩
  · obtain ⟨v₁, hload, hloaded⟩ | hload := h.sound.loadInode hn (mem 1) (mem 2)
    · rw [hload, ok_bind]
      dsimp only
      split_ifs
      · exact ⟨_, rfl, hloaded.after⟩
      · obtain ⟨node, hcache⟩ := Option.isSome_iff_exists.mp hloaded.isSome_self
        obtain ⟨v', hdec, hafter⟩ := h.refDec_after hloaded.sound (.inl hloaded.tree) hloaded.toFollows hcache
          fun _ => by rw [hloaded.tree]; exact hw n
        rw [hdec]
        exact ⟨_, rfl, hafter⟩
    · rw [hload]
      exact ⟨_, rfl, After.refl h⟩

end

variable {type : FileType}

/-- A new inode that could not be entered goes. -/
lemma Inv.refDec_created (h : v.Inv) (hcreated : v.Created type n v₁)
    (hturns : v₁.Turns v₁.tree v') : ∃ v'', v'.refDec n = .ok v'' ∧ v.After v'' := by
  have hrecord := h.sound.record_of_notMem hcreated.fresh
  have hlinks : v'.tree.nlinks n = 0 := by
    rw [hturns.tree, hcreated.tree]
    exact congrArg Tree.Record.nlinks hrecord
  obtain ⟨v'', hdec, hsound, htree, hfollows⟩ := hturns.sound.refDec_fresh
    ((hturns.status n).trans hcreated.status) hlinks
  refine ⟨v'', hdec, hcreated.toFollows.trans (hturns.toFollows.trans hfollows), hsound, ?_⟩
  rw [htree, hturns.tree, hcreated.tree, Tree.drop_add hrecord]
  exact Tree.Turn.refl _

section

variable (h : v.Created type n v')
include h

/-- Directories in memory are as they were after a new inode has been made. -/
lemma Created.cache_dir (hsound : v.Sound) (hcache : v.cache d = some node) : v'.cache d = some node := by
  have hdn : d ≠ n := by
    rintro rfl
    exact h.fresh (hsound.mem hcache)
  rw [h.others d hdn, hcache]

lemma Created.isSome : (v'.cache n).isSome = true := by
  rw [← isSome_status, h.status]
  rfl

lemma Created.kind : v.tree.kind n = none := if_neg h.fresh

lemma Created.ne_zero : n ≠ 0 := by
  obtain ⟨node, hcache⟩ := Option.isSome_iff_exists.mp h.isSome
  exact h.sound.ne_zero (h.sound.mem hcache)

end

variable (h : v.Inv)
include h

lemma Inv.createMissing (hcache : v.cache d = some node) (hdir : node.sin.din.type = .dir)
    (hslot : slot ≤ node.sin.din.blocks) (hroom : v.tree.Room d slot name)
    (hname : name.strlen ≤ Name.maxFnameLen) :
    Ensures Tolerated (v.createMissing mem d slot name) fun r => v.After r.1 := by
  rw [Vol.createMissing]
  rcases h.sound.createInode (mem 1) (mem 2) (.inr rfl) with
    ⟨v₁, n, hcreate, hcreated⟩ | ⟨v₁, hcreate, hturns⟩
  · rw [hcreate, ok_bind]
    have hcache1 := hcreated.cache_dir h.sound hcache
    have hlink := hcreated.sound.direntLink hcache1 hdir (h.sound.slots_lt h.names hcache hdir)
      hcreated.isSome hslot hname (mem 3)
    refine (hlink.tolerate fun _ => .inl).bind fun r hr => ?_
    obtain ⟨v2, err⟩ := r
    obtain ⟨rfl, hturns⟩ | ⟨err, rfl, hturns⟩ := hr
    · refine ⟨hcreated.toFollows.trans hturns.toFollows, hturns.sound, ?_⟩
      rw [hturns.tree, hcreated.tree]
      exact Tree.Turn.of_change (.create hroom hcreated.kind hcreated.ne_zero)
    · obtain ⟨v', hdec, hafter⟩ := h.refDec_created hcreated hturns
      dsimp only
      rw [hdec]
      exact hafter
  · rw [hcreate]
    exact hturns.after (Tree.Turn.refl _)

lemma Inv.sfsCreate (hw : v.tree.NoWrap) (hd : v.HasDir d) (excl : Bool) :
    Ensures Tolerated (v.sfsCreate mem d name excl) fun r => v.After r.1 := by
  obtain ⟨node, hcache, hdir⟩ := hd.exists_node
  rw [Vol.sfsCreate]
  split_ifs with hname hdots hremoved
  any_goals exact After.refl h
  refine h.search hcache hdir (not_lt.mp hname) (fun _ => After.refl h) (fun slot n he => ?_) fun slot hslot => ?_
  · exact .of_ok (h.createFound hw (h.mem_of_entry he) excl)
  · exact h.createMissing hcache hdir hslot.1 (h.room hcache hdir hremoved hslot) (not_lt.mp hname)

/-! ### `sfs_mkdir` -/

lemma Inv.mkdirLink (hcreated : v.Created .dir n v₁) (hcache : v.cache d = some node)
    (hdir : node.sin.din.type = .dir) (hslot : slot ≤ node.sin.din.blocks) (hroom : v.tree.Room d slot name)
    (hname : name.strlen ≤ Name.maxFnameLen) :
    Ensures Tolerated (v₁.mkdirLink mem d slot name n) fun r => v.After r.1 := by
  have hcache1 := hcreated.cache_dir h.sound hcache
  have hdn : d ≠ n := by
    rintro rfl
    exact hcreated.fresh (h.sound.mem hcache)
  have hlink := hcreated.sound.direntLink hcache1 hdir (h.sound.slots_lt h.names hcache hdir)
    hcreated.isSome hslot hname (mem 3)
  have hrecord := h.sound.record_of_notMem hcreated.fresh
  rw [Vol.mkdirLink]
  refine (hlink.tolerate fun _ => .inl).bind fun r hr => ?_
  obtain ⟨v2, err⟩ := r
  obtain ⟨rfl, hturns⟩ | ⟨err, rfl, hturns⟩ := hr
  · dsimp only at hturns ⊢
    obtain ⟨node2, hnode2⟩ := hturns.exists_cache hcreated.isSome
    have hkind2 : node2.sin.din.type = .dir := by
      have hkind := hturns.sound.kind_of_cache hnode2
      rw [hturns.tree, hcreated.tree] at hkind
      have hself : ((v.tree.add n .dir).link d slot name n).kind n = some .dir := Function.update_self ..
      exact Option.some.inj (hkind.symm.trans hself)
    -- the parent and the two links
    have hparent := hturns.trans (hturns.sound.setParent hnode2 hkind2 (h.sound.lt_two_pow (h.sound.mem hcache)))
    obtain ⟨node3, hnode3⟩ := hparent.exists_cache hcreated.isSome
    have hself := hparent.trans (hparent.sound.nlinksInc hnode3)
    obtain ⟨node4, hnode4⟩ := hself.exists_cache (n := d) (hcache1 ▸ rfl)
    have hall := hself.trans (hself.sound.nlinksInc hnode4)
    obtain ⟨node5, hnode5⟩ := hall.exists_cache hcreated.isSome
    set v5 := ((v2.setParent n d).nlinksInc n).nlinksInc d
    have htree : v5.tree = v.tree.mkdir d slot name n := by
      rw [hall.tree, hself.tree, hparent.tree, hturns.tree, hcreated.tree]
      rfl
    have hchange : v.tree.Change v5.tree := by
      rw [htree]
      exact .mkdir hroom hcreated.kind hcreated.ne_zero
    have hnlinks : v5.tree.nlinks n = 2 := by
      have hzero : v.tree.nlinks n = 0 := congrArg Tree.Record.nlinks hrecord
      rw [htree, Tree.mkdir, Tree.nlinks_addLinks, if_neg hdn.symm, Tree.nlinks_addLinks, if_pos rfl,
        Tree.setParent_nlinks, Tree.link, Tree.nlinks_addLinks, if_pos rfl]
      change v.tree.nlinks n + 1 + 1 + 0 = 2
      rw [hzero]
      rfl
    obtain ⟨v', hdec, hsound, hcases, hfollows⟩ := hall.sound.refDec (h.names.change hchange) hnode5
      fun _ h0 => by rw [hnlinks] at h0; cases h0
    rw [hdec]
    refine ⟨hcreated.toFollows.trans (hall.toFollows.trans hfollows), hsound, v5.tree, .inr hchange, ?_⟩
    obtain hcases | ⟨h0, hcases⟩ := hcases
    · exact .inl hcases
    · exact .inr ⟨n, h0, hcases⟩
  · obtain ⟨v', hdec, hafter⟩ := h.refDec_created hcreated hturns
    have hstatus := (hturns.status n).trans hcreated.status
    have hlinks : (v2.din n).nlinks = 0 := by
      obtain ⟨node2, hnode2⟩ := hturns.exists_cache hcreated.isSome
      rw [← tree_nlinks (hturns.sound.mem hnode2), hturns.tree, hcreated.tree]
      exact congrArg Tree.Record.nlinks hrecord
    have href : (v2.cache n).map Node.ref = some 1 := by
      have hmap := congrArg (Option.map fun s => s.2.1) hstatus
      rwa [status, Option.map_map] at hmap
    dsimp only
    rw [if_neg (not_or.mpr ⟨not_not.mpr hlinks, not_not.mpr href⟩), hdec]
    exact hafter

lemma Inv.sfsMkdir (hd : v.HasDir d) : Ensures Tolerated (v.sfsMkdir mem d name) fun r => v.After r.1 := by
  obtain ⟨node, hcache, hdir⟩ := hd.exists_node
  rw [Vol.sfsMkdir]
  split_ifs with hname hdots hremoved
  any_goals exact After.refl h
  refine h.search hcache hdir (not_lt.mp hname) (fun _ => After.refl h) (fun _ _ _ => After.refl h) fun slot hslot => ?_
  dsimp only
  rcases h.sound.createInode (mem 1) (mem 2) (.inl rfl) with
    ⟨v₁, n, hcreate, hcreated⟩ | ⟨v₁, hcreate, hturns⟩
  · rw [hcreate, ok_bind]
    exact h.mkdirLink hcreated hcache hdir hslot.1 (h.room hcache hdir hremoved hslot) (not_lt.mp hname)
  · rw [hcreate]
    exact hturns.after (Tree.Turn.refl _)

/-! ### `sfs_link` -/

lemma Inv.sfsLink (hd : v.HasDir d) (hn : (v.cache n).isSome = true) :
    Ensures Tolerated (v.sfsLink mem d name n) fun r => v.After r.1 := by
  obtain ⟨node, hcache, hdir⟩ := hd.exists_node
  obtain ⟨node', hnode'⟩ := Option.isSome_iff_exists.mp hn
  rw [Vol.sfsLink]
  split_ifs with hname hdots htype hremoved
  any_goals exact After.refl h
  refine h.search hcache hdir (not_lt.mp hname) (fun _ => After.refl h) (fun _ _ _ => After.refl h) fun slot hslot => ?_
  have hmem := h.sound.mem hnode'
  have hfile : v.tree.kind n = some .file := by
    rw [tree_kind hmem, (h.sound.shaped n hmem).type.resolve_left htype]
  have hlink := h.sound.direntLink hcache hdir (h.sound.slots_lt h.names hcache hdir) hn hslot.1
    (not_lt.mp hname) (mem 1)
  refine (hlink.tolerate fun _ => .inl).mono fun r hr => ?_
  obtain ⟨-, hturns⟩ | ⟨err, -, hturns⟩ := hr
  · exact hturns.after (.of_change (.link (h.room hcache hdir hremoved hslot) hfile))
  · exact hturns.after (Tree.Turn.refl _)

end Vol

end UcoreKernel.Sfs
