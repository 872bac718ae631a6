import UcoreKernel.Fs.Sfs.EmptyVolume

/-!
Looking up `..`.

A directory that has been removed stays in memory as long as there are references to it, and all that it
keeps of its parent is a block number. Its entry was the only thing that kept the parent from being removed
too, so the number may be that of a free block, or of another inode.

* `parentFine_iff_parentThere`: this is so in a run, if and only if every directory whose parent is looked up
  still has a name, or has a parent that is still there.
-/

namespace UcoreKernel.Sfs

open Guarded

namespace Vol

variable {v v' : Vol} {d n : ℕ} {mem : ℕ → Bool} {e : Event}

/-- A directory that has not been released. -/
def Live (v : Vol) (n : ℕ) : Prop := n ∈ v.inodes ∧ (v.din n).type = .dir

instance (v : Vol) (n : ℕ) : Decidable (v.Live n) := inferInstanceAs (Decidable (_ ∧ _))

lemma live_iff_kind : v.Live n ↔ v.tree.kind n = some .dir := by
  constructor
  · rintro ⟨hn, hdir⟩
    rw [tree_kind hn, hdir]
  · intro hkind
    have hn := mem_of_kind hkind
    rw [tree_kind hn] at hkind
    exact ⟨hn, Option.some.inj hkind⟩

/-- There is an entry for the inode, or it is the root. -/
def Named (v : Vol) (n : ℕ) : Prop := n = blknRoot ∨ ∃ x name, v.tree.entry x = some (name, n)

/-- The result of a lookup of the parent is an error, or a directory. -/
def IsParent : Except Panic (Vol × Except Errno ℕ) → Prop
  | .error _ => False
  | .ok (_, .error _) => True
  | .ok (v, .ok p) => v.Live p

/-- The parent is read from the block of a directory, if it is read at all, and what is returned is an error
or a directory. -/
def ParentFine (v : Vol) : Event → Prop
  | .lookup mem d name => name = dotdot → v.HasDir d →
      (v.cache (v.din d).parent = none → mem 0 = true → v.Live (v.din d).parent) ∧
        IsParent (v.loadParent mem d)
  | _ => True

/-- The directory has not been removed, or its parent has not been released, or there is no memory to
load it. -/
def ParentThere (v : Vol) : Event → Prop
  | .lookup mem d name => name = dotdot → v.HasDir d →
      v.Named d ∨ v.Live (v.din d).parent ∨ (v.cache (v.din d).parent = none ∧ mem 0 = false)
  | _ => True

/-- A directory that has a name has a parent. -/
lemma Inv.live_parent (h : v.Inv) (hd : v.HasDir d) (hnamed : v.Named d) : v.Live (v.din d).parent := by
  obtain ⟨node, hcache, -⟩ := hd.exists_node
  have hmem := h.sound.mem hcache
  have hkind : v.tree.kind d = some .dir := by rw [tree_kind hmem, hd.2]
  have hparent := h.parents.dir h.names hkind hnamed
  rw [tree_parent hmem hd.2] at hparent
  exact live_iff_kind.mpr hparent

/-- A parent that is there is returned, or there is no memory. -/
lemma Inv.isParent (h : v.Inv) (hlive : v.Live (v.din d).parent) : IsParent (v.loadParent mem d) := by
  obtain ⟨v', hload, hloaded⟩ | hload := h.sound.loadInode hlive.1 (mem 0) (mem 1)
  · rw [Vol.loadParent, hload]
    change v'.Live _
    rw [live_iff_kind, hloaded.tree]
    exact live_iff_kind.mp hlive
  · rw [Vol.loadParent, hload]
    exact trivial

/-- Without memory nothing is read. -/
lemma loadParent_noMem (hnone : v.cache (v.din d).parent = none) (hmem : mem 0 = false) :
    v.loadParent mem d = .ok (v, .error .noMem) := by
  rw [loadParent, loadInode, hnone]
  rw [readInode, if_pos hmem]
  rfl

/-- An inode in memory is returned as it is. -/
lemma live_of_isParent (hsome : v.cache (v.din d).parent ≠ none) (h : IsParent (v.loadParent mem d)) :
    v.Live (v.din d).parent := by
  obtain ⟨node, hcache⟩ := Option.ne_none_iff_exists'.mp hsome
  rw [loadParent, loadInode, hcache] at h
  obtain ⟨hmem, hdir⟩ := h
  refine ⟨hmem, ?_⟩
  rw [din_of_cache (Function.update_self ..)] at hdir
  rw [din_of_cache hcache]
  exact hdir

/-- For one event, the two conditions are the same. -/
lemma Inv.parentFine_iff (h : v.Inv) (e : Event) : v.ParentFine e ↔ v.ParentThere e := by
  cases e with
  | lookup mem d name =>
    refine forall_congr' fun hname => forall_congr' fun hd => ⟨?_, ?_⟩
    · rintro ⟨hread, hparent⟩
      by_cases hnone : v.cache (v.din d).parent = none
      · grind
      · exact .inr (.inl (live_of_isParent hnone hparent))
    · rintro (hnamed | hlive | ⟨hnone, hmem⟩)
      · have hlive := h.live_parent hd hnamed
        exact ⟨fun _ _ => hlive, h.isParent hlive⟩
      · exact ⟨fun _ _ => hlive, h.isParent hlive⟩
      · rw [loadParent_noMem hnone hmem]
        exact ⟨fun _ hmem' => absurd (hmem.symm.trans hmem') nofun, trivial⟩
  | _ => rfl

/-- A lookup of a parent that is fine keeps a volume in order, as the other events do. -/
lemma Inv.step_of_parentThere (h : v.Inv) (w : Width) (hw : v.tree.NoWrap) (hthere : v.ParentThere e)
    (hstep : v.step w e = .ok v') : v'.Inv := by
  have hlegal : v.Legal e → v'.Inv := fun hlegal => by
    have hinv := h.step_inv w hlegal
    rw [hstep] at hinv
    exact hinv
  by_cases hparent : ∃ d, v.ParentOf d e
  · obtain ⟨d, hparent⟩ := hparent
    cases e with
    | lookup mem d' name =>
      obtain ⟨rfl, rfl, hd⟩ := hparent
      have hlive : v.Live (v.din d').parent → v'.Inv := fun hlive => hlegal ⟨hw, fun d'' hd'' => by
        obtain ⟨rfl, -, -⟩ := hd''
        exact hlive.1⟩
      obtain hnamed | hthere | ⟨hnone, hmem⟩ := hthere rfl hd
      · exact hlive (h.live_parent hd hnamed)
      · exact hlive hthere
      · have hsame : v.step w (.lookup mem d' dotdot) = .ok v := by
          rw [Vol.step, if_pos hd, Vol.sfsLookup, if_neg (by decide), if_pos rfl, loadParent_noMem hnone hmem]
          rfl
        grind
    | _ => exact absurd hparent id
  · push Not at hparent
    exact hlegal ⟨hw, fun d hd => absurd hd (hparent d)⟩

end Vol

/-- In every run from a volume in order in which no link counter overflows: looking up `..` never fails an
assertion, never reads a block that is not that of a directory and returns an error or a directory, if and
only if the directory that it starts from still has a name, or its parent is still there, or there is not
even memory to begin with. -/
theorem parentFine_iff_parentThere (w : Width) (v : Volume) (es : List Vol.Event)
    (hlinks : AllSafe (Vol.step w) (fun v _ => v.tree.NoWrap) v.toVol es) :
    AllSafe (Vol.step w) Vol.ParentFine v.toVol es ↔ AllSafe (Vol.step w) Vol.ParentThere v.toVol es := by
  refine allSafe_congr_of_legal Vol.Inv (fun v e hinv _ => hinv.parentFine_iff e) ?_ v.inv es hlinks
  intro v e v' hinv hw hfine hstep
  exact hinv.step_of_parentThere w hw ((hinv.parentFine_iff e).mp hfine) hstep

/-! ### A parent that is gone -/

/-- A directory is made with another one in it, of which the caller keeps a reference. Then both are
removed, the inner one first. -/
def removedParent : List Vol.Event :=
  [.getRoot fun _ => true, .mkdir (fun _ => true) blknRoot ⟨[97], by decide⟩,
    .lookup (fun _ => true) blknRoot ⟨[97], by decide⟩, .mkdir (fun _ => true) 3 ⟨[98], by decide⟩,
    .lookup (fun _ => true) 3 ⟨[98], by decide⟩, .unlink (fun _ => true) 3 ⟨[98], by decide⟩, .refDec 3,
    .unlink (fun _ => true) blknRoot ⟨[97], by decide⟩]

lemma removedParent_links (w : Width) :
    AllSafe (Vol.step w) (fun v _ => v.tree.NoWrap) twentyBlocks.toVol removedParent := by
  refine AllSafe.mono ?_ fun v e (hlegal : v.Legal e) => hlegal.links
  exact twentyBlocks.inv.allSafe_legal w (by decide) (by simp [removedParent, Vol.Event.Forward, Vol.dotdot])

/-- That far, nothing goes wrong. -/
theorem parentFine_iff_parentThere_removedParent :
    AllSafe (Vol.step ⟨32, le_rfl⟩) (fun v _ => v.tree.NoWrap) twentyBlocks.toVol removedParent ∧
      (AllSafe (Vol.step ⟨32, le_rfl⟩) Vol.ParentFine twentyBlocks.toVol removedParent ↔
        AllSafe (Vol.step ⟨32, le_rfl⟩) Vol.ParentThere twentyBlocks.toVol removedParent) :=
  ⟨removedParent_links _, parentFine_iff_parentThere _ _ _ (removedParent_links _)⟩

/-- The inner directory is in memory, and the parent that it is looked for is a free block. -/
theorem removed_parent_notInuse :
    ∃ v, removedParent.foldlM (Vol.step ⟨32, le_rfl⟩) twentyBlocks.toVol = .ok v ∧ v.HasDir 5 ∧
      v.step ⟨32, le_rfl⟩ (.lookup (fun _ => true) 5 Vol.dotdot) = .error .notInuse := by
  obtain ⟨v, hrun, hv⟩ := exists_ok_of_decide
    (x := removedParent.foldlM (Vol.step ⟨32, le_rfl⟩) twentyBlocks.toVol)
    (p := fun v => decide (v.HasDir 5) && match v.step ⟨32, le_rfl⟩ (.lookup (fun _ => true) 5 Vol.dotdot) with
      | .error .notInuse => true
      | _ => false) (by decide +kernel)
  grind

end UcoreKernel.Sfs
