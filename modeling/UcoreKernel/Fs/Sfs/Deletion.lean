import UcoreKernel.Fs.Sfs.EmptyVolume

/-!
What deleting a file gives back: `sfs_reclaim` (`fs/sfs/sfs_inode.c`), for an inode without links.

First the blocks of the file go, from the last one on, through the three levels of the map, then the inode
and then the index blocks. What is in use and does not belong to the file is the same before and after each
step, and in the end nothing belongs to it.
-/

namespace UcoreKernel.Sfs

open ByteBlock PointerTree Function

variable {fs fs' : Fs} {din : Din} {sin : Sin} {n c : ℕ} {v : Vol} {p : Pos}

/-- A block that is in use and is not one of an inode. -/
def Rest (fs : Fs) (din : Din) (c : ℕ) : Prop := fs.Used c ∧ ∀ q, ptrs fs din q ≠ c

/-- An inode of any size whose block map has entries only below `din->blocks`. -/
structure Bounded (fs : Fs) (din : Din) : Prop where
  ok : FsOk fs
  held : Held fs din
  size : ∀ i < din.blocks, ∃ p, Pos.ofIndex i = some p
  below : ∀ p, p.Leaf → ptrs fs din p ≠ 0 → ∃ i < din.blocks, Pos.ofIndex i = some p

/-- The blocks of the file go. -/
lemma shrinkLoop_rest {left : ℕ} (h : Bounded fs sin.din) (hleft : sin.din.blocks = left) :
    ∃ fs' sin', shrinkLoop left fs sin = .ok (fs', sin') ∧ Kept fs sin.din fs' sin'.din ∧
      (∀ q, q.Leaf → ptrs fs' sin'.din q = 0) ∧ ∀ c, Rest fs' sin'.din c → Rest fs sin.din c := by
  induction left generalizing fs sin with
  | zero =>
    refine ⟨fs, sin, rfl, Kept.refl h.ok h.held, fun q hq => ?_, fun _ => id⟩
    by_contra hne
    obtain ⟨i, hi, -⟩ := h.below q hq hne
    omega
  | succ left ih =>
    obtain ⟨p, hp⟩ := h.size (sin.din.blocks - 1) (by omega)
    have hleaf := Pos.leaf_of_ofIndex hp
    obtain ⟨fs1, din1, hfrees, htrunc⟩ := bmapTruncate_spec h.ok h.held (by omega) hp
    have hptrs : ptrs fs1 { din1 with blocks := sin.din.blocks - 1 } = ptrs fs1 din1 := ptrs_congr rfl rfl rfl
    have hkept := hfrees.toKept.of_ptrs hptrs
    have h1 : Bounded fs1 (⟨{ din1 with blocks := sin.din.blocks - 1 }, true⟩ : Sin).din := by
      refine ⟨hkept.ok, hkept.held, fun i hi => h.size i (by dsimp only at hi; omega), fun q hq hne => ?_⟩
      obtain ⟨i, hi, hpos⟩ := h.below q hq ((hfrees.lost q).resolve_left hne ▸ hne)
      -- the last one has gone
      have hlast : i ≠ sin.din.blocks - 1 := by
        rintro rfl
        cases hpos.symm.trans hp
        exact hne hfrees.self
      exact ⟨i, by dsimp only; omega, hpos⟩
    obtain ⟨fs', sin', hloop, hkept', hgone, hrest⟩ := ih h1 (by dsimp only; omega)
    refine ⟨fs', sin', ?_, hkept.trans hkept', hgone, fun c hc => ?_⟩
    · rw [shrinkLoop, htrunc, ok_bind]
      exact hloop
    · have hc := hrest c hc
      exact hfrees.rest (hleaf.bare) hc.1 hc.2

/-- The block of an inode and those that it points to: the blocks of the file, the indirect block, the double
indirect block and the blocks below it. -/
def owned (fs : Fs) (din : Din) (n : ℕ) : Set ℕ := {c | c = n ∨ c ≠ 0 ∧ ∃ p, ptrs fs din p = c}

lemma release_used (h : Bounded v.fs (v.sin n).din) (hn : Rest v.fs (v.sin n).din n) :
    ∃ v', v.release n = .ok v' ∧ FsOk v'.fs ∧ v'.fs.blocks = v.fs.blocks ∧
      ∀ c, v'.fs.Used c ↔ v.fs.Used c ∧ c ∉ owned v.fs (v.sin n).din n := by
  obtain ⟨fs1, sin1, hshrink, hkept, hleaf, hrest⟩ := shrinkLoop_rest h rfl
  have hn1 := (hkept.keep n hn.1 hn.2).1
  obtain ⟨fs2, hind, hsheds2⟩ := freeIndirect_spec (hkept.ok.give hn1) (hkept.held.give (hkept.not_owned hn.1 hn.2))
  obtain ⟨fs3, hdb, hsheds3⟩ := freeDbIndirect_spec hsheds2.ok hsheds2.held
  have hsheds := hsheds2.trans hsheds3
  have hleaf' : ∀ q, q.Leaf → ptrs fs3 { sin1.din with indirect := 0, dbIndirect := 0 } q = 0 :=
    fun q hq => (hsheds.lost q).elim id fun heq => heq.trans (hleaf q hq)
  have hzero : ∀ q, ptrs fs3 { sin1.din with indirect := 0, dbIndirect := 0 } q = 0 := by
    intro q
    cases q with
    | indirect | dbIndirect => rfl
    | dbInd i => exact (ptrs_reads _ _).bare rfl (.dbInd i) rfl
    | direct i => exact hleaf' (.direct i) trivial
    | ind i => exact hleaf' (.ind i) trivial
    | dbSub i j => exact hleaf' (.dbSub i j) trivial
  refine ⟨⟨fs3, update v.cache n none, v.inodes.erase n⟩, ?_, hsheds.ok, hsheds.blocks.trans hkept.blocks,
    fun c => ⟨fun hc => ?_, fun ⟨hc, hnot⟩ => ?_⟩⟩
  · have hdb : Vol.freeDbIndirect fs2 sin1.din.dbIndirect = .ok fs3 := hdb
    have hdin : v.din n = (v.sin n).din := rfl
    rw [Vol.release, hdin, hshrink, ok_bind]
    dsimp only
    rw [blockFree_spec hn1, ok_bind, hind, ok_bind, hdb, ok_bind]
    rfl
  · obtain ⟨hc1, hother⟩ := hsheds.rest hleaf c hc fun q heq => hc.1 (heq.symm.trans (hzero q))
    obtain ⟨hc1, hcn⟩ := Fs.used_give.mp hc1
    obtain ⟨hc, hother⟩ := hrest c ⟨hc1, hother⟩
    exact ⟨hc, fun hmem => hmem.elim hcn fun hp => hp.2.elim hother⟩
  · have hother : ∀ p, ptrs v.fs (v.sin n).din p ≠ c := fun p hp => hnot (.inr ⟨hc.1, p, hp⟩)
    have hc1 := (hkept.keep c hc hother).1
    exact (hsheds.keep c (Fs.used_give.mpr ⟨hc1, fun heq => hnot (.inl heq)⟩) (hkept.not_owned hc hother)).1

/-- The free blocks are those that are not in use. -/
lemma FsOk.free_iff (h : FsOk fs) : fs.free c = true ↔ (c ≠ 0 ∧ c < fs.blocks) ∧ ¬fs.Used c := by
  have := h.free c
  grind [Fs.Used]

lemma FsOk.ncard_free (h : FsOk fs) : {c | fs.free c = true}.Finite ∧
    fs.unusedBlocks = {c | fs.free c = true}.ncard := by
  have hset : {c | fs.free c = true} = ((Finset.range fs.freemapBits).filter (fs.free ·) : Finset ℕ) := by
    ext c
    have hlt := fs.le_freemapBits
    have hfree := h.free c
    grind
  rw [hset, Set.ncard_coe_finset]
  exact ⟨Finset.finite_toSet _, h.unused⟩

/-- The last reference to an inode without links has gone. -/
structure Deletable (v : Vol) (n : ℕ) (node : Node) : Prop extends Bounded v.fs node.sin.din where
  inode : Rest v.fs node.sin.din n
  last : node.reclaimCount = 1
  nlinks : node.sin.din.nlinks = 0

end UcoreKernel.Sfs
