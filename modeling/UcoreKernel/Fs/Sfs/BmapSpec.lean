import UcoreKernel.Fs.Sfs.Pointers

/-!
What the functions of the block map do.
-/

namespace UcoreKernel.Sfs

open ByteBlock PointerTree Function Pos

variable {fs : Fs} {din : Din} {sin : Sin} {p q c : Pos} {index : ℕ}

/-! ### One index block -/

lemma Pos.slot_lt_nentry (h : c.parent = some q) : c.slot < nentry := by
  cases c with
  | direct | indirect | dbIndirect => cases h
  | ind i | dbInd i => exact i.isLt
  | dbSub i j => exact j.isLt

/-- The pointer of a position, read from the index block above it. -/
lemma rbuf_index (hheld : Held fs din) (hc : c.parent = some q) (hq : ptrs fs din q ≠ 0) :
    fs.rbuf (ptrs fs din q) 4 (4 * c.slot) = .ok (read (fs.disk (ptrs fs din q)) (4 * c.slot) 4) ∧
    leNat (read (fs.disk (ptrs fs din q)) (4 * c.slot) 4) = ptrs fs din c := by
  have hslot := slot_lt_nentry hc
  have hsize : 4 * c.slot + 4 ≤ blkSize := by
    unfold nentry blkSize at *
    omega
  refine ⟨Fs.rbuf_of_used (hheld.used q hq) (by omega) hsize, ?_⟩
  have hread := (ptrs_reads fs din).child_eq hc
  rw [if_neg hq] at hread
  exact hread.symm

/-- Without `create`, the pointers are returned as they are. -/
lemma bmapGetSub_find (hheld : Held fs din) (hc : c.parent = some q) :
    bmapGetSub fs (ptrs fs din q) c.slot false = .ok (fs, some (ptrs fs din q, ptrs fs din c)) := by
  rw [bmapGetSub, if_neg (not_le.mpr (slot_lt_nentry hc))]
  by_cases hq : ptrs fs din q = 0
  · rw [if_neg (not_not.mpr hq), if_pos rfl, hq, (ptrs_reads fs din).bare hq c hc]
    rfl
  · obtain ⟨hread, hword⟩ := rbuf_index hheld hc hq
    rw [if_pos hq, hread, ok_bind, hword]
    simp

section

variable (hok : FsOk fs) (hheld : Held fs din) (hc : c.parent = some q)
include hok hheld hc

/-- A new block in the index block: it fails only if no block is free. -/
lemma bmapAllocSub_spec (hq : ptrs fs din q ≠ 0) (hzero : ptrs fs din c = 0) :
    (fs.unusedBlocks = 0 ∧ bmapAllocSub fs (ptrs fs din q) c.slot = .ok (fs, none)) ∨
      ∃ fs' b, bmapAllocSub fs (ptrs fs din q) c.slot = .ok (fs', some b) ∧ b ≠ 0 ∧
        Extends fs din fs' din ∧ ptrs fs' din = update (ptrs fs din) c b ∧
        fs.unusedBlocks = fs'.unusedBlocks + 1 := by
  rw [bmapAllocSub]
  obtain ⟨hnone, halloc⟩ | ⟨b, hb, -, hpos, halloc⟩ := blockAlloc_spec hok
  · exact .inl ⟨hnone, by rw [halloc]; rfl⟩
  · obtain ⟨hext, hptrs⟩ := Extends.allocChild hok hheld hb hc hq hzero
    refine .inr ⟨_, b, ?_, (hok.free b hb).1, hext, hptrs, ?_⟩
    · have hslot := slot_lt_nentry hc
      have hused : (fs.take b).Used (ptrs fs din q) := Fs.used_take.mpr (.inl (hheld.used q hq))
      have hne : ptrs fs din q ≠ b := fun heq => Fs.not_used hb (heq ▸ hheld.used q hq)
      have hsize : 4 * c.slot < blkSize ∧ 4 * c.slot + (leBytes 4 b).length ≤ blkSize := by
        rw [length_leBytes]
        unfold nentry blkSize at *
        omega
      have hwrite := Fs.wbuf_of_used hused (leBytes 4 b) hsize.1 hsize.2
      have hdisk : (fs.take b).disk (ptrs fs din q) = fs.disk (ptrs fs din q) := by
        simp [Fs.take, update_of_ne hne]
      rw [halloc, ok_bind]
      dsimp only
      rw [hwrite, hdisk]
      rfl
    · change fs.unusedBlocks = fs.unusedBlocks - 1 + 1
      omega

/-- The inode after `sfs_bmap_get_sub_nolock` returned the index block `ent` for a position. -/
def Din.withIndex (din : Din) (q : Pos) (old ent : ℕ) : Din :=
  if ent = old then din else din.setRoot q ent

/-- With `create`, the index block and the block below it are there afterwards, or there were too few
free blocks. -/
lemma bmapGetSub_create (hroot : q.parent = none ∨ ptrs fs din q ≠ 0) :
    (∃ fs', bmapGetSub fs (ptrs fs din q) c.slot true = .ok (fs', none) ∧
      Extends fs din fs' din ∧ ptrs fs' din = ptrs fs din ∧ ptrs fs din c = 0 ∧
      fs'.unusedBlocks = fs.unusedBlocks ∧ fs.unusedBlocks ≤ 1 ∧ (ptrs fs din q ≠ 0 → fs.unusedBlocks = 0)) ∨
    ∃ fs' ent b, bmapGetSub fs (ptrs fs din q) c.slot true = .ok (fs', some (ent, b)) ∧
      b ≠ 0 ∧ (ptrs fs din q ≠ 0 → ent = ptrs fs din q) ∧
      Extends fs din fs' (din.withIndex q (ptrs fs din q) ent) ∧
      ptrs fs' (din.withIndex q (ptrs fs din q) ent) = update (update (ptrs fs din) q ent) c b ∧
      fs.unusedBlocks ≤ fs'.unusedBlocks + 2 ∧
      (ptrs fs din q ≠ 0 → fs.unusedBlocks ≤ fs'.unusedBlocks + 1) := by
  have hcq : c ≠ q := by
    rintro rfl
    exact lt_irrefl _ (shape.depth_parent hc)
  rw [bmapGetSub, if_neg (not_le.mpr (slot_lt_nentry hc))]
  by_cases hq : ptrs fs din q = 0
  · -- a new index block, and a new block in it
    have hqroot : q.parent = none := hroot.resolve_right (not_not.mpr hq)
    rw [if_neg (not_not.mpr hq), if_neg (by simp)]
    obtain ⟨hnone, halloc⟩ | ⟨e, he, -, hpos, halloc⟩ := blockAlloc_spec hok
    · refine .inl ⟨fs, ?_, Extends.refl hok hheld, rfl, (ptrs_reads fs din).bare hq c hc, rfl,
        by omega, fun _ => hnone⟩
      rw [halloc]
      rfl
    · obtain ⟨hext, hptrs⟩ := Extends.allocRoot hok hheld he hqroot hq
      have hqe : ptrs (fs.take e) (din.setRoot q e) q = e := by rw [hptrs, update_self]
      have he0 : e ≠ 0 := (hok.free e he).1
      have hc0 : ptrs (fs.take e) (din.setRoot q e) c = 0 := by
        rw [hptrs, update_of_ne hcq]
        exact (ptrs_reads fs din).bare hq c hc
      have hunused : (fs.take e).unusedBlocks = fs.unusedBlocks - 1 := rfl
      have hsub := bmapAllocSub_spec hext.ok hext.held hc (by rw [hqe]; exact he0) hc0
      rw [hqe] at hsub
      rw [halloc, ok_bind]
      dsimp only
      obtain ⟨hnone, hsub⟩ | ⟨fs', b, hsub, hb, hext', hptrs', hunused'⟩ := hsub
      · -- no block is free any more, and the index block is given back
        obtain ⟨hundo, hundoptrs⟩ := Extends.undo hok hheld he
        have hused : (fs.take e).Used e := Fs.used_take.mpr (.inr ⟨rfl, hok.free e he⟩)
        refine .inl ⟨(fs.take e).give e, ?_, hundo, hundoptrs, (ptrs_reads fs din).bare hq c hc,
          ?_, by omega, fun hne => absurd hq hne⟩
        · rw [hsub, ok_bind]
          dsimp only
          rw [blockFree_spec hused]
          rfl
        · change fs.unusedBlocks - 1 + 1 = fs.unusedBlocks
          omega
      · have hdin : din.withIndex q (ptrs fs din q) e = din.setRoot q e := by
          rw [Din.withIndex, hq, if_neg he0]
        refine .inr ⟨fs', e, b, ?_, hb, fun hne => absurd hq hne, ?_, ?_, by omega, fun hne => absurd hq hne⟩
        · rw [hsub]
          rfl
        · rw [hdin]
          exact hext.trans hext'
        · rw [hdin, hptrs', hptrs]
  · obtain ⟨hread, hword⟩ := rbuf_index hheld hc hq
    have hdin : din.withIndex q (ptrs fs din q) (ptrs fs din q) = din := if_pos rfl
    rw [if_pos hq, hread, ok_bind]
    rw [hword]
    by_cases hc0 : ptrs fs din c = 0
    · rw [if_neg (by simp [hc0])]
      rcases bmapAllocSub_spec hok hheld hc hq hc0 with ⟨hnone, hsub⟩ |
        ⟨fs', b, hsub, hb, hext, hptrs, hunused⟩
      · refine .inl ⟨fs, ?_, Extends.refl hok hheld, rfl, hc0, rfl, by omega, fun _ => hnone⟩
        rw [hsub]
        rfl
      · refine .inr ⟨fs', ptrs fs din q, b, ?_, hb, fun _ => rfl, ?_, ?_, by omega, fun _ => by omega⟩
        · rw [hsub]
          rfl
        · rw [hdin]
          exact hext
        · rw [hdin, hptrs, update_eq_self]
    · refine .inr ⟨fs, ptrs fs din q, ptrs fs din c, ?_, hc0, fun _ => rfl, ?_, ?_, by omega, fun _ => by omega⟩
      · rw [if_pos (.inl hc0)]
        rfl
      · rw [hdin]
        exact Extends.refl hok hheld
      · grind

end

/-! ### A block of the file -/

/-- The block of one position is found or made. -/
structure Got (fs : Fs) (sin : Sin) (fs' : Fs) (sin' : Sin) (p : Pos) : Prop where
  ext : Extends fs sin.din fs' sin'.din
  other : ∀ q : Pos, q.Leaf → q ≠ p → ptrs fs' sin'.din q = ptrs fs sin.din q
  dirty : sin' = sin ∨ sin'.dirty = true
  unused : fs.unusedBlocks ≤ fs'.unusedBlocks + 3

lemma Got.refl (hok : FsOk fs) (hheld : Held fs sin.din) (p : Pos) : Got fs sin fs sin p :=
  ⟨Extends.refl hok hheld, fun _ _ _ => rfl, .inl rfl, by omega⟩

/-- What `sfs_bmap_get_nolock` returns if it is to create the block. -/
def GetCreates (fs : Fs) (sin : Sin) (p : Pos) (result : Except Panic (Fs × Sin × Option ℕ)) : Prop :=
  ∃ fs' sin', Got fs sin fs' sin' p ∧
    ((result = .ok (fs', sin', none) ∧ ptrs fs sin.din p = 0 ∧ ptrs fs' sin'.din p = 0 ∧
      fs.unusedBlocks ≤ 2) ∨
    ∃ b, result = .ok (fs', sin', some b) ∧ b ≠ 0 ∧ ptrs fs' sin'.din p = b)

/-- The block of a position is in use. -/
lemma bmapOut_ptrs (hheld : Held fs sin.din) (p : Pos) :
    bmapOut fs sin (ptrs fs sin.din p) = .ok (fs, sin, some (ptrs fs sin.din p)) := by
  rw [bmapOut]
  split_ifs with hp
  · rw [hp]
  · rw [Fs.assertInuse_of_used (hheld.used p hp)]
    rfl

/-- A block that was found or made. -/
lemma GetCreates.of_out {fs' : Fs} {sin' : Sin} {b : ℕ} (hgot : Got fs sin fs' sin' p) (hb : b ≠ 0)
    (hp : ptrs fs' sin'.din p = b) : GetCreates fs sin p (bmapOut fs' sin' b) := by
  refine ⟨fs', sin', hgot, .inr ⟨b, ?_, hb, hp⟩⟩
  subst hp
  exact bmapOut_ptrs hgot.ext.held p

lemma bmapGetDirect_create (hok : FsOk fs) (hheld : Held fs sin.din) (i : Fin ndirect) :
    GetCreates fs sin (.direct i) (bmapGetDirect fs sin i true) := by
  rw [bmapGetDirect]
  by_cases hi : sin.din.direct i = 0
  · rw [if_pos ⟨hi, rfl⟩]
    obtain ⟨hnone, halloc⟩ | ⟨b, hb, -, hpos, halloc⟩ := blockAlloc_spec hok
    · refine ⟨fs, sin, Got.refl hok hheld _, .inl ⟨?_, hi, hi, by omega⟩⟩
      rw [halloc]
      rfl
    · obtain ⟨hext, hptrs⟩ := Extends.allocRoot (p := .direct i) hok hheld hb rfl hi
      rw [halloc]
      refine GetCreates.of_out ⟨hext, fun q _ hq => ?_, .inr rfl, ?_⟩ (hok.free b hb).1 ?_
      · exact (congrFun hptrs q).trans (update_of_ne hq ..)
      · change fs.unusedBlocks ≤ fs.unusedBlocks - 1 + 3
        omega
      · exact (congrFun hptrs (.direct i)).trans (update_self ..)
  · rw [if_neg fun h => hi h.1]
    exact GetCreates.of_out (Got.refl hok hheld _) hi rfl

/-- The index block that was returned is entered into the inode. -/
lemma Sin.setIndex_withIndex (set : ℕ → Except Panic Sin) {q : Pos} {old ent : ℕ}
    (hset : set ent = if ent = old then .ok sin else if old ≠ 0 then .error .indirectSet
      else .ok ⟨sin.din.setRoot q ent, true⟩) (h : old ≠ 0 → ent = old) :
    ∃ sin', set ent = .ok sin' ∧ sin'.din = sin.din.withIndex q old ent ∧ (sin' = sin ∨ sin'.dirty = true) := by
  rw [hset, Din.withIndex]
  by_cases hent : ent = old
  · grind
  · have hzero : old = 0 := by
      by_contra hne
      exact hent (h hne)
    exact ⟨_, by rw [if_neg hent, if_neg (not_not.mpr hzero)], by rw [if_neg hent], .inr rfl⟩

section

variable (hok : FsOk fs) (hheld : Held fs sin.din)
include hok hheld

lemma bmapGetIndirect_create (i : Fin nentry) : GetCreates fs sin (.ind i) (bmapGetIndirect fs sin i true) := by
  rw [bmapGetIndirect]
  rcases bmapGetSub_create (c := .ind i) hok hheld rfl (.inl rfl) with
    ⟨fs', hsub, hext, hptrs, hzero, hunused, hle, -⟩ | ⟨fs', ent, b, hsub, hb, hent, hext, hptrs, hunused, -⟩
  · have hsub : bmapGetSub fs sin.din.indirect i true = .ok (fs', none) := hsub
    refine ⟨fs', sin, ⟨hext, fun q _ _ => by rw [hptrs], .inl rfl, by omega⟩, .inl ⟨?_, hzero,
      by rw [hptrs, hzero], by omega⟩⟩
    rw [hsub]
    rfl
  · have hsub : bmapGetSub fs sin.din.indirect i true = .ok (fs', some (ent, b)) := hsub
    obtain ⟨sin', hset, hdin, hdirty⟩ := Sin.setIndex_withIndex (q := .indirect) sin.setIndirect rfl hent
    rw [hsub, ok_bind]
    dsimp only
    rw [hset, ok_bind]
    have hptrs' : ptrs fs' sin'.din = update (update (ptrs fs sin.din) .indirect ent) (.ind i) b := hdin ▸ hptrs
    refine GetCreates.of_out ⟨hdin ▸ hext, fun q hleaf hq => ?_, hdirty, by omega⟩ hb ?_
    · have hne : q ≠ .indirect := by
        rintro rfl
        exact hleaf
      rw [hptrs', update_of_ne hq, update_of_ne hne]
    · rw [hptrs', update_self]

lemma bmapGetDbIndirect_create {i j : Fin nentry} (hi : index / nentry = i) (hj : index % nentry = j) :
    GetCreates fs sin (.dbSub i j) (bmapGetDbIndirect fs sin index true) := by
  rw [bmapGetDbIndirect, hi, hj]
  rcases bmapGetSub_create (c := .dbInd i) hok hheld rfl (.inl rfl) with
    ⟨fs', hsub, hext, hptrs, hzero, hunused, hle, -⟩ | ⟨fs', ent, b, hsub, hb, hent, hext, hptrs, hunused, -⟩
  · have hsub : bmapGetSub fs sin.din.dbIndirect i true = .ok (fs', none) := hsub
    have hleaf := (ptrs_reads fs sin.din).bare hzero (.dbSub i j) rfl
    refine ⟨fs', sin, ⟨hext, fun q _ _ => by rw [hptrs], .inl rfl, by omega⟩, .inl ⟨?_, hleaf,
      by rw [hptrs, hleaf], by omega⟩⟩
    rw [hsub]
    rfl
  · have hsub : bmapGetSub fs sin.din.dbIndirect i true = .ok (fs', some (ent, b)) := hsub
    obtain ⟨sin', hset, hdin, hdirty⟩ := Sin.setIndex_withIndex (q := .dbIndirect) sin.setDbIndirect rfl hent
    rw [hsub, ok_bind]
    dsimp only
    rw [hset, ok_bind]
    rw [if_neg hb]
    have hext : Extends fs sin.din fs' sin'.din := hdin ▸ hext
    have hptrs : ptrs fs' sin'.din =
        update (update (ptrs fs sin.din) .dbIndirect ent) (.dbInd i) b :=
      hdin ▸ hptrs
    have hb' : ptrs fs' sin'.din (.dbInd i) = b := by rw [hptrs, update_self]
    have hother : ∀ q, q.Leaf → ptrs fs' sin'.din q = ptrs fs sin.din q := by
      intro q hleaf
      have hne : q ≠ .dbIndirect := by
        rintro rfl
        exact hleaf
      have hne' : q ≠ .dbInd i := by
        rintro rfl
        exact hleaf
      rw [hptrs, update_of_ne hne', update_of_ne hne]
    -- the index block of the second level is there, so this call makes one block at most
    rcases bmapGetSub_create (c := .dbSub i j) hext.ok hext.held rfl (.inr (hb' ▸ hb)) with
      ⟨fs'', hsub', hext', hptrs', hzero, hunused', -, hnone⟩ |
      ⟨fs'', ent', b', hsub', hbne, hent', hext', hptrs', -, hunused'⟩
    · rw [hb'] at hsub' hnone
      have hnone := hnone hb
      rw [show bmapGetSub fs' b j true = .ok (fs'', none) from hsub']
      refine ⟨fs'', sin', ⟨hext.trans hext', fun q hleaf _ => ?_, hdirty, by omega⟩, .inl ⟨rfl, ?_, ?_, by omega⟩⟩
      · rw [hptrs', hother q hleaf]
      · exact (hother (.dbSub i j) trivial).symm.trans hzero
      · rw [hptrs', hzero]
    · rw [hb'] at hsub' hent' hext' hptrs'
      have hent' := hent' hb
      have hdin' : sin'.din.withIndex (.dbInd i) b ent' = sin'.din := if_pos hent'
      rw [hdin'] at hext' hptrs'
      rw [show bmapGetSub fs' b j true = .ok (fs'', some (ent', b')) from hsub']
      have hsame : update (ptrs fs' sin'.din) (.dbInd i) ent' = ptrs fs' sin'.din := by
        rw [hent', ← hb', update_eq_self]
      rw [hsame] at hptrs'
      have hunused' := hunused' (hb' ▸ hb)
      refine GetCreates.of_out ⟨hext.trans hext', fun q hleaf hq => ?_, hdirty, by omega⟩ hbne ?_
      · rw [hptrs', update_of_ne hq, hother q hleaf]
      · rw [hptrs', update_self]

/-- With `create`, the block is there afterwards, or there were too few free blocks. -/
lemma bmapGet_create (hpos : ofIndex index = some p) : GetCreates fs sin p (bmapGet fs sin index true) := by
  unfold ofIndex at hpos
  rw [bmapGet]
  split_ifs at hpos ⊢ with hdirect hind hdb
  · cases hpos
    exact bmapGetDirect_create hok hheld _
  · cases hpos
    exact bmapGetIndirect_create hok hheld ⟨index - ndirect, hind⟩
  · cases hpos
    exact bmapGetDbIndirect_create hok hheld rfl rfl

end

section

variable (hheld : Held fs sin.din)
include hheld

lemma bmapGetIndirect_find (i : Fin nentry) :
    bmapGetIndirect fs sin i false = .ok (fs, sin, some (ptrs fs sin.din (.ind i))) := by
  have hsub : bmapGetSub fs sin.din.indirect i false =
      .ok (fs, some (sin.din.indirect, ptrs fs sin.din (.ind i))) :=
    bmapGetSub_find (c := .ind i) hheld rfl
  grind [bmapGetIndirect, ok_bind, Sin.setIndirect, bmapOut_ptrs]

lemma bmapGetDbIndirect_find {i j : Fin nentry} (hi : index / nentry = i) (hj : index % nentry = j) :
    bmapGetDbIndirect fs sin index false = .ok (fs, sin, some (ptrs fs sin.din (.dbSub i j))) := by
  have hsub : bmapGetSub fs sin.din.dbIndirect i false =
      .ok (fs, some (sin.din.dbIndirect, ptrs fs sin.din (.dbInd i))) :=
    bmapGetSub_find (c := .dbInd i) hheld rfl
  rw [bmapGetDbIndirect, hi, hj, hsub, ok_bind]
  dsimp only
  rw [Sin.setDbIndirect, if_pos rfl, ok_bind]
  by_cases hzero : ptrs fs sin.din (.dbInd i) = 0
  · rw [if_pos hzero, (ptrs_reads fs sin.din).bare hzero (.dbSub i j) rfl]
    rfl
  · have hsub' : bmapGetSub fs (ptrs fs sin.din (.dbInd i)) j false = _ :=
      bmapGetSub_find (c := .dbSub i j) hheld rfl
    rw [if_neg hzero, hsub']
    exact bmapOut_ptrs hheld _

/-- Without `create`, the block is returned as it is. -/
lemma bmapGet_find (hpos : ofIndex index = some p) :
    bmapGet fs sin index false = .ok (fs, sin, some (ptrs fs sin.din p)) := by
  unfold ofIndex at hpos
  rw [bmapGet]
  split_ifs at hpos ⊢ with hdirect hind hdb
  · cases hpos
    rw [bmapGetDirect, if_neg (by simp)]
    exact bmapOut_ptrs hheld (.direct ⟨index, hdirect⟩)
  · cases hpos
    exact bmapGetIndirect_find hheld ⟨index - ndirect, hind⟩
  · cases hpos
    exact bmapGetDbIndirect_find hheld rfl rfl

end

/-! ### Giving blocks back -/

/-- The block of a position in an index block is given back. -/
lemma bmapFreeSub_spec (hok : FsOk fs) (hheld : Held fs din) (hc : c.parent = some q) (hq : ptrs fs din q ≠ 0) :
    ∃ fs', bmapFreeSub fs (ptrs fs din q) c.slot = .ok fs' ∧ Frees fs din fs' din c := by
  obtain ⟨hread, hword⟩ := rbuf_index hheld hc hq
  have hslot := slot_lt_nentry hc
  have hused := hheld.used q hq
  rw [bmapFreeSub, Fs.assertInuse_of_used hused, ok_bind, if_neg (not_le.mpr hslot)]
  change ∃ fs', (fs.rbuf (ptrs fs din q) 4 (4 * c.slot) >>= _) = _ ∧ _
  rw [hread, ok_bind]
  rw [hword]
  by_cases hzero : ptrs fs din c = 0
  · exact ⟨fs, by rw [if_pos hzero]; rfl, Frees.refl hok hheld hzero⟩
  · have hsize : 4 * c.slot < blkSize ∧ 4 * c.slot + (leBytes 4 0).length ≤ blkSize := by
      rw [length_leBytes]
      unfold nentry blkSize at *
      omega
    refine ⟨_, ?_, Frees.freeChild hok hheld hc hq hzero⟩
    have hused' : (fs.setBlock (ptrs fs din q)
        (setWord (fs.disk (ptrs fs din q)) c.slot 0)).Used (ptrs fs din c) :=
      hheld.used c hzero
    rw [if_neg hzero, Fs.wbuf_of_used hused (leBytes 4 0) hsize.1 hsize.2, ok_bind]
    exact blockFree_spec hused'

/-- The last case of `sfs_bmap_free_nolock`. -/
lemma bmapFree_dbSub (sin : Sin) (hok : FsOk fs) (hheld : Held fs din) (i j : Fin nentry) : ∃ fs', (do
      match ← bmapGetSub fs din.dbIndirect i false with
      | (fs, none) => return (fs, sin)
      | (fs, some (_, ino)) =>
        if ino = 0 then return (fs, sin)
        else return (← bmapFreeSub fs ino j, sin) : Except Panic (Fs × Sin)) = .ok (fs', sin) ∧
      Frees fs din fs' din (.dbSub i j) := by
  have hsub : bmapGetSub fs din.dbIndirect i false =
      .ok (fs, some (din.dbIndirect, ptrs fs din (.dbInd i))) :=
    bmapGetSub_find (c := .dbInd i) hheld rfl
  rw [hsub, ok_bind]
  dsimp only
  by_cases hzero : ptrs fs din (.dbInd i) = 0
  · rw [if_pos hzero]
    exact ⟨fs, rfl, Frees.refl hok hheld ((ptrs_reads fs din).bare hzero (.dbSub i j) rfl)⟩
  · obtain ⟨fs', hfree, hfrees⟩ := bmapFreeSub_spec hok hheld (c := .dbSub i j) rfl hzero
    have hfree : bmapFreeSub fs (ptrs fs din (.dbInd i)) j = .ok fs' := hfree
    rw [if_neg hzero, hfree]
    exact ⟨fs', rfl, hfrees⟩

/-- The block of one position of the file is given back. -/
lemma bmapFree_spec (hok : FsOk fs) (hheld : Held fs sin.din) (hpos : ofIndex index = some p) :
    ∃ fs' sin', bmapFree fs sin index = .ok (fs', sin') ∧ Frees fs sin.din fs' sin'.din p := by
  have hreads := ptrs_reads fs sin.din
  unfold ofIndex at hpos
  rw [bmapFree]
  split_ifs at hpos ⊢ with hdirect hzero hind hzero hzero hdb hdb
  · cases hpos
    exact ⟨fs, sin, rfl, Frees.refl hok hheld hzero⟩
  · cases hpos
    have hfree : fs.blockFree (sin.din.direct ⟨index, hdirect⟩) = _ :=
      blockFree_spec (hheld.used (.direct ⟨index, hdirect⟩) hzero)
    rw [hfree]
    exact ⟨_, _, rfl, Frees.freeRoot hok hheld (p := .direct ⟨index, hdirect⟩) rfl hzero⟩
  · cases hpos
    exact ⟨fs, sin, rfl, Frees.refl hok hheld (hreads.bare (p := .indirect) hzero (.ind ⟨index - ndirect, hind⟩) rfl)⟩
  · cases hpos
    obtain ⟨fs', hfree, hfrees⟩ := bmapFreeSub_spec hok hheld (c := .ind ⟨index - ndirect, hind⟩) rfl hzero
    have hfree : bmapFreeSub fs sin.din.indirect (index - ndirect) = .ok fs' := hfree
    rw [hfree]
    exact ⟨fs', sin, rfl, hfrees⟩
  · cases hpos
    have hbare := hreads.bare (p := .dbIndirect) hzero (.dbInd ⟨_, hdb⟩) rfl
    exact ⟨fs, sin, rfl, Frees.refl hok hheld (hreads.bare hbare (.dbSub ⟨_, hdb⟩ ⟨_, _⟩) rfl)⟩
  · cases hpos
    obtain ⟨fs', hfree, hfrees⟩ := bmapFree_dbSub sin hok hheld
      ⟨(index - ndirect - nentry) / nentry, hdb⟩
      ⟨(index - ndirect - nentry) % nentry, Nat.mod_lt _ (by decide)⟩
    exact ⟨fs', sin, hfree, hfrees⟩

/-! ### Loading and truncating -/

/-- The pointers do not depend on the other fields. -/
lemma ptrs_congr {din' : Din} (hdirect : din'.direct = din.direct)
    (hind : din'.indirect = din.indirect) (hdb : din'.dbIndirect = din.dbIndirect) :
    ptrs fs din' = ptrs fs din := by
  funext p
  cases p <;> simp only [ptrs, hdirect, hind, hdb]

/-- A block below `din->blocks` is found. -/
lemma bmapLoad_find (hheld : Held fs sin.din) (hpos : ofIndex index = some p)
    (hlt : index < sin.din.blocks) (hp : ptrs fs sin.din p ≠ 0) :
    bmapLoad fs sin index = .ok (fs, sin, some (ptrs fs sin.din p)) := by
  have hne : decide (index = sin.din.blocks) = false := by simpa using hlt.ne
  rw [bmapLoad, if_neg (by omega)]
  simp only [hne]
  rw [bmapGet_find hheld hpos, ok_bind]
  dsimp only
  rw [Fs.assertInuse_of_used (hheld.used p hp)]
  rfl

variable (hok : FsOk fs) (hheld : Held fs sin.din)
include hok hheld

/-- The block after the last one is made, or there are too few free blocks. -/
lemma bmapLoad_create (hpos : ofIndex sin.din.blocks = some p) : ∃ fs' sin', Got fs sin fs' sin' p ∧
      ((bmapLoad fs sin sin.din.blocks = .ok (fs', sin', none) ∧ ptrs fs' sin'.din p = 0 ∧
        ptrs fs sin.din p = 0 ∧ fs.unusedBlocks ≤ 2) ∨
      bmapLoad fs sin sin.din.blocks = .ok (fs',
        { sin' with din := { sin'.din with blocks := sin.din.blocks + 1 } },
        some (ptrs fs' sin'.din p)) ∧ ptrs fs' sin'.din p ≠ 0) := by
  obtain ⟨fs', sin', hgot, hresult⟩ := bmapGet_create hok hheld hpos
  refine ⟨fs', sin', hgot, ?_⟩
  rw [bmapLoad, if_neg (by omega)]
  simp only [decide_true]
  obtain ⟨hget, hp, hp', hle⟩ | ⟨b, hget, hb, hp⟩ := hresult
  · rw [hget]
    exact .inl ⟨rfl, hp', hp, hle⟩
  · subst hp
    have hblocks : sin'.din.blocks = sin.din.blocks := by rw [hgot.ext.same]
    rw [hget, ok_bind]
    dsimp only
    rw [Fs.assertInuse_of_used (hgot.ext.held.used p hb), hblocks]
    exact .inr ⟨rfl, hb⟩

/-- The last block is given back. -/
lemma bmapTruncate_spec (hblocks : sin.din.blocks ≠ 0)
    (hpos : ofIndex (sin.din.blocks - 1) = some p) : ∃ fs' din', Frees fs sin.din fs' din' p ∧
      bmapTruncate fs sin = .ok (fs', ⟨{ din' with blocks := sin.din.blocks - 1 }, true⟩) := by
  obtain ⟨fs', sin', hfree, hfrees⟩ := bmapFree_spec hok hheld hpos
  refine ⟨fs', sin'.din, hfrees, ?_⟩
  have hsame : sin'.din.blocks = sin.din.blocks := by rw [hfrees.same]
  rw [bmapTruncate, if_neg hblocks, hfree, ok_bind]
  dsimp only
  rw [hsame]
  rfl

end UcoreKernel.Sfs
