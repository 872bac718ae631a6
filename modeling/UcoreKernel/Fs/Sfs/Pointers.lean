import UcoreKernel.Lib.PointerTree
import UcoreKernel.Fs.Sfs.Bmap

/-!
The blocks that an inode owns.

The block map of an inode is a tree of pointers: in the inode itself, in its indirect block, in its
double indirect block, and in the blocks below that one.
-/

namespace UcoreKernel.Sfs

open ByteBlock PointerTree Function Fs

/-- The places where an inode names a block. -/
inductive Pos where
  | direct (i : Fin ndirect)
  | indirect
  | ind (i : Fin nentry)
  | dbIndirect
  | dbInd (i : Fin nentry)
  | dbSub (i j : Fin nentry)
deriving DecidableEq

namespace Pos

/-- The block in which the name of a block stands. -/
def parent : Pos → Option Pos
  | direct _ | indirect | dbIndirect => none
  | ind _ => some indirect
  | dbInd _ => some dbIndirect
  | dbSub i _ => some (dbInd i)

/-- Where it stands there. -/
def slot : Pos → ℕ
  | direct i => i
  | indirect => ndirect
  | dbIndirect => ndirect + 1
  | ind i => i
  | dbInd i => i
  | dbSub _ j => j

/-- How many index blocks are above. -/
def depth : Pos → ℕ
  | direct _ | indirect | dbIndirect => 0
  | ind _ | dbInd _ => 1
  | dbSub _ _ => 2

/-- A block of the file, and not an index block. -/
def Leaf : Pos → Prop
  | direct _ | ind _ | dbSub _ _ => True
  | indirect | dbIndirect | dbInd _ => False

/-- The tree of positions. -/
def shape : Shape Pos where
  parent := parent
  slot := slot
  depth := depth
  depth_parent {p q} h := by
    cases p <;> simp only [parent, reduceCtorEq, Option.some.injEq] at h <;> subst h <;> simp [depth]
  ext {p q} hparent hslot := by
    cases p <;> cases q <;>
      simp_all [parent, slot, Fin.ext_iff] <;> omega

/-- Positions in one block differ by their slots. -/
lemma slot_inj {p q : Pos} (h : p.parent = q.parent) : p.slot = q.slot ↔ p = q :=
  ⟨shape.ext h, congrArg slot⟩

/-- An index block is not a block of the file. -/
lemma not_leaf_of_parent {p q : Pos} (h : p.parent = some q) : ¬q.Leaf := by
  cases p <;> simp only [parent, reduceCtorEq, Option.some.injEq] at h <;> subst h <;> exact id

/-- The position of a block of the file. -/
def ofIndex (index : ℕ) : Option Pos :=
  if h : index < ndirect then some (direct ⟨index, h⟩)
  else if h : index - ndirect < nentry then some (ind ⟨index - ndirect, h⟩)
  else if h : (index - ndirect - nentry) / nentry < nentry then
    some (dbSub ⟨(index - ndirect - nentry) / nentry, h⟩
      ⟨(index - ndirect - nentry) % nentry, Nat.mod_lt _ (by decide)⟩)
  else none

lemma leaf_of_ofIndex {index : ℕ} {p : Pos} (h : ofIndex index = some p) : p.Leaf := by
  unfold ofIndex at h
  split_ifs at h <;> cases h <;> trivial

/-- Different blocks of the file have different positions. -/
lemma ofIndex_inj {i j : ℕ} {p : Pos} (hi : ofIndex i = some p) (hj : ofIndex j = some p) : i = j := by
  unfold ofIndex at hi hj
  split_ifs at hi hj <;> cases hi <;> simp only [Option.some.injEq, reduceCtorEq, direct.injEq,
    ind.injEq, dbSub.injEq, Fin.mk.injEq] at hj
  · exact hj.symm
  · omega
  · grind [Nat.div_add_mod]

end Pos

/-! ### The block at each position -/

/-- The pointers in the inode itself. -/
def Din.root (din : Din) (k : ℕ) : ℕ :=
  if h : k < ndirect then din.direct ⟨k, h⟩
  else if k = ndirect then din.indirect
  else din.dbIndirect

/-- The pointer in a slot of an index block, if there is such a block. -/
def Fs.sub (fs : Fs) (ent i : ℕ) : ℕ := if ent = 0 then 0 else word (fs.disk ent) i

/-- The block at each position; zero if there is none. -/
def ptrs (fs : Fs) (din : Din) : Pos → ℕ
  | .direct i => din.direct i
  | .indirect => din.indirect
  | .ind i => fs.sub din.indirect i
  | .dbIndirect => din.dbIndirect
  | .dbInd i => fs.sub din.dbIndirect i
  | .dbSub i j => fs.sub (fs.sub din.dbIndirect i) j

/-- The pointers are found where the shape says. -/
lemma ptrs_reads (fs : Fs) (din : Din) :
    Reads Pos.shape din.root (fun b => word (fs.disk b)) (ptrs fs din) := by
  intro p
  cases p with
  | direct | indirect | dbIndirect => simp [Pos.shape, Pos.parent, Pos.slot, ptrs, Din.root]
  | ind | dbInd | dbSub => rfl

/-- One pointer in the inode itself replaced. -/
def Din.setRoot (din : Din) (p : Pos) (b : ℕ) : Din :=
  match p with
  | .direct i => { din with direct := update din.direct i b }
  | .indirect => { din with indirect := b }
  | .dbIndirect => { din with dbIndirect := b }
  | .ind _ | .dbInd _ | .dbSub _ _ => din

lemma Din.root_setRoot (din : Din) {p : Pos} (hp : p.parent = none) (b k : ℕ)
    (hk : ∃ q : Pos, q.parent = none ∧ q.slot = k) : (din.setRoot p b).root k = update din.root p.slot b k := by
  obtain ⟨q, hq, rfl⟩ := hk
  cases p <;> simp only [Pos.parent, reduceCtorEq] at hp <;>
    cases q <;> simp only [Pos.parent, reduceCtorEq] at hq <;>
    simp [Din.setRoot, Din.root, Pos.slot, update_apply, Fin.ext_iff]
  · omega
  · omega
  · omega
  · omega

/-- The blocks of an inode are in use, and they are different. -/
def Held (fs : Fs) (din : Din) : Prop := Owns fs.Used (ptrs fs din)

/-! ### Changes of one inode -/

section Changes

variable {fs fs' fs'' : Fs} {din din' din'' : Din} {p q : Pos} {b : ℕ}

/-- Only blocks that the inode owns change, and those it gets were not in use before. -/
structure Kept (fs : Fs) (din : Din) (fs' : Fs) (din' : Din) : Prop where
  ok : FsOk fs'
  held : Held fs' din'
  blocks : fs'.blocks = fs.blocks
  fresh : ∀ p, ptrs fs' din' p ≠ 0 →
    (∃ q, ptrs fs din q = ptrs fs' din' p) ∨ ¬fs.Used (ptrs fs' din' p)
  keep : ∀ b, fs.Used b → (∀ p, ptrs fs din p ≠ b) → fs'.Used b ∧ fs'.disk b = fs.disk b

namespace Kept

lemma refl (hok : FsOk fs) (hheld : Held fs din) : Kept fs din fs din :=
  ⟨hok, hheld, rfl, fun p _ => .inl ⟨p, rfl⟩, fun _ hb _ => ⟨hb, rfl⟩⟩

variable (h : Kept fs din fs' din')
include h

/-- A block of someone else is not owned afterwards either. -/
lemma not_owned (hb : fs.Used b) (hother : ∀ p, ptrs fs din p ≠ b) (p : Pos) : ptrs fs' din' p ≠ b := by
  rintro rfl
  obtain ⟨q, hq⟩ | hunused := h.fresh p hb.1
  · exact hother q hq
  · exact hunused hb

lemma trans (h' : Kept fs' din' fs'' din'') : Kept fs din fs'' din'' := by
  refine ⟨h'.ok, h'.held, h'.blocks.trans h.blocks, fun p _ => ?_, fun b hb hother => ?_⟩
  · by_contra hcon
    push Not at hcon
    obtain ⟨hother, hused⟩ := hcon
    have hkeep := (h.keep _ hused hother).1
    exact h'.not_owned hkeep (h.not_owned hused hother) p rfl
  · obtain ⟨hused, hdisk⟩ := h.keep b hb hother
    obtain ⟨hused', hdisk'⟩ := h'.keep b hused (h.not_owned hb hother)
    exact ⟨hused', hdisk'.trans hdisk⟩

/-- Only the pointers of the inode matter. -/
lemma of_ptrs (hptrs : ptrs fs' din'' = ptrs fs' din') : Kept fs din fs' din'' := by
  refine ⟨h.ok, ?_, h.blocks, ?_, h.keep⟩
  · rw [Held, hptrs]
    exact h.held
  · rw [hptrs]
    exact h.fresh

end Kept

/-- Positions without a block get clear blocks, and nothing else changes. -/
structure Extends (fs : Fs) (din : Din) (fs' : Fs) (din' : Din) : Prop extends
    Kept fs din fs' din' where
  old : ∀ p, ptrs fs din p ≠ 0 → ptrs fs' din' p = ptrs fs din p
  data : ∀ p, p.Leaf → ptrs fs' din' p ≠ 0 →
    fs'.disk (ptrs fs' din' p) = if ptrs fs din p = 0 then zero else fs.disk (ptrs fs din p)
  same : din' = { din with
    direct := din'.direct, indirect := din'.indirect, dbIndirect := din'.dbIndirect }

namespace Extends

lemma refl (hok : FsOk fs) (hheld : Held fs din) : Extends fs din fs din where
  toKept := Kept.refl hok hheld
  old _ _ := rfl
  data p _ hp := by rw [if_neg hp]
  same := rfl

lemma trans (h : Extends fs din fs' din') (h' : Extends fs' din' fs'' din'') : Extends fs din fs'' din'' where
  toKept := h.toKept.trans h'.toKept
  old p hp := by
    have hold := h.old p hp
    rw [h'.old p (hold ▸ hp), hold]
  data p hleaf hp := by
    rw [h'.data p hleaf hp]
    by_cases hp' : ptrs fs' din' p = 0
    · have hp0 : ptrs fs din p = 0 := by
        by_contra hne
        exact hne ((h.old p hne).symm.trans hp')
      rw [if_pos hp', if_pos hp0]
    · rw [if_neg hp', h.data p hleaf hp']
  same := by
    rw [h'.same, h.same]

/-- One position gets one new block. -/
lemma of_update (hheld : Held fs din) (hb : fs.free b = true) (hok' : FsOk fs')
    (hblocks : fs'.blocks = fs.blocks) (hused : ∀ c, fs'.Used c ↔ fs.Used c ∨ c = b)
    (hp : ptrs fs din p = 0) (hptrs : ptrs fs' din' = update (ptrs fs din) p b)
    (hdisk : ∀ c, fs.Used c → (∀ q, ¬q.Leaf → ptrs fs din q ≠ c) → fs'.disk c = fs.disk c)
    (hnew : fs'.disk b = zero) (hsame : din' = { din with
      direct := din'.direct, indirect := din'.indirect, dbIndirect := din'.dbIndirect }) :
    Extends fs din fs' din' := by
  have hnot : ¬fs.Used b := not_used hb
  have hold : ∀ q, ptrs fs din q ≠ 0 → ptrs fs' din' q = ptrs fs din q := by
    intro q hq
    have hqp : q ≠ p := by
      rintro rfl
      exact hq hp
    rw [hptrs, update_of_ne hqp]
  refine ⟨⟨hok', ?_, hblocks, fun q hq => ?_, fun c hc _ => ?_⟩, hold, fun q hleaf hq => ?_, hsame⟩
  · rw [Held, hptrs]
    exact hheld.set hnot ((hused b).mpr (.inr rfl)) fun c hc => (hused c).mpr (.inl hc)
  · obtain rfl | hqp := eq_or_ne q p
    · rw [hptrs, update_self]
      exact .inr hnot
    · rw [hptrs, update_of_ne hqp]
      exact .inl ⟨q, rfl⟩
  · grind
  · obtain rfl | hqp := eq_or_ne q p
    · rw [hptrs, update_self, if_pos hp, hnew]
    · rw [hptrs, update_of_ne hqp] at hq ⊢
      rw [if_neg hq]
      -- the block of a file is not an index block
      refine hdisk _ (hheld.used q hq) fun r hr heq => hr ?_
      rw [hheld.inj q r hq heq.symm] at hleaf
      exact hleaf

variable (hok : FsOk fs) (hheld : Held fs din) (hb : fs.free b = true)
include hok hheld hb

omit hok in
/-- A new block is none of the index blocks. -/
lemma reads_take : Reads Pos.shape din.root (fun c => word ((fs.take b).disk c)) (ptrs fs din) := by
  refine (ptrs_reads fs din).congr (fun _ _ => rfl) fun r q _ hq => ?_
  have hne : ptrs fs din q ≠ b := fun heq => not_used hb (heq ▸ hheld.used q hq)
  simp [take, update_of_ne hne]

/-- A pointer in the inode gets a new block. -/
lemma allocRoot (hparent : p.parent = none) (hp : ptrs fs din p = 0) :
    Extends fs din (fs.take b) (din.setRoot p b) ∧
      ptrs (fs.take b) (din.setRoot p b) = update (ptrs fs din) p b := by
  have hnot : ¬fs.Used b := not_used hb
  have hrange := hok.free b hb
  have hptrs : ptrs (fs.take b) (din.setRoot p b) = update (ptrs fs din) p b := by
    refine (ptrs_reads _ _).unique ?_
    have hclear := reads_take hheld hb
    have hset := hclear.setRoot (b := b) hparent (hclear.bare hp) (.inr fun c _ => by simp [take])
    exact hset.congr (fun q hq => din.root_setRoot hparent b _ ⟨q, hq, rfl⟩) fun _ _ _ _ => rfl
  refine ⟨of_update hheld hb (hok.take hb) rfl (fun c => ?_) hp hptrs (fun c hc _ => ?_) ?_ ?_, hptrs⟩
  · rw [used_take]
    simp [hrange]
  · have hne : c ≠ b := fun heq : c = b => hnot (heq ▸ hc)
    simp [take, update_of_ne hne]
  · simp [take]
  · cases p <;> rfl

/-- A pointer in an index block gets a new block. -/
lemma allocChild (hparent : p.parent = some q) (hq : ptrs fs din q ≠ 0) (hp : ptrs fs din p = 0) :
    Extends fs din ((fs.take b).setBlock (ptrs fs din q) (setWord (fs.disk (ptrs fs din q)) p.slot b)) din ∧
      ptrs ((fs.take b).setBlock (ptrs fs din q) (setWord (fs.disk (ptrs fs din q)) p.slot b)) din =
        update (ptrs fs din) p b := by
  have hnot : ¬fs.Used b := not_used hb
  have hrange := hok.free b hb
  have hlt : b < 2 ^ 32 := lt_of_lt_of_le hrange.2 hok.blocks
  have hqb : ptrs fs din q ≠ b := fun heq => hnot (heq ▸ hheld.used q hq)
  set fs' := setBlock _ _ _ with hfs'
  have hdisk : ∀ c, c ≠ b → c ≠ ptrs fs din q → fs'.disk c = fs.disk c := by
    intro c hcb hcq
    simp [hfs', setBlock, take, update_of_ne hcq, update_of_ne hcb]
  have hnew : fs'.disk b = zero := by
    simp [hfs', setBlock, take, update_of_ne hqb.symm]
  have hptrs : ptrs fs' din = update (ptrs fs din) p b := by
    refine (ptrs_reads _ _).unique ?_
    have hset : Reads Pos.shape din.root (update (fun c => word ((fs.take b).disk c))
        (ptrs fs din q) (update (word ((fs.take b).disk (ptrs fs din q))) p.slot b))
        (update (ptrs fs din) p b) := by
      have hclear := reads_take hheld hb
      exact hclear.setChild hparent hq (fun r hr => (hheld.inj q r hq hr.symm).symm) hqb.symm
        (hclear.bare hp) (.inr fun c _ => by simp [take]) rfl
    refine hset.congr (fun _ _ => rfl) fun r t _ _ => ?_
    refine congrFun ?_ _
    by_cases ht : update (ptrs fs din) p b t = ptrs fs din q
    · rw [ht, update_self]
      simp [hfs', setBlock, take, update_of_ne hqb, word_setWord hlt]
    · rw [update_of_ne ht]
      simp [hfs', setBlock, update_of_ne ht]
  refine ⟨of_update hheld hb ((hok.take hb).setBlock _ _) rfl (fun c => ?_) hp hptrs (fun c _ _ => ?_) hnew rfl, hptrs⟩
  · rw [used_setBlock, used_take]
    simp [hrange]
  · grind [Pos.not_leaf_of_parent]

/-- A block that was taken is given back at once. -/
lemma undo : Extends fs din ((fs.take b).give b) din ∧ ptrs ((fs.take b).give b) din = ptrs fs din := by
  have hnot : ¬fs.Used b := not_used hb
  have hrange := hok.free b hb
  have hused : ∀ c, ((fs.take b).give b).Used c ↔ fs.Used c := by
    intro c
    rw [used_give, used_take]
    constructor
    · grind
    · grind
  have hdisk : ∀ c, fs.Used c → ((fs.take b).give b).disk c = fs.disk c := by
    intro c hc
    have hne : c ≠ b := fun heq : c = b => hnot (heq ▸ hc)
    simp [give, take, update_of_ne hne]
  have hptrs : ptrs ((fs.take b).give b) din = ptrs fs din := by
    refine (ptrs_reads _ _).unique ((ptrs_reads fs din).congr (fun _ _ => rfl) fun r t _ ht => ?_)
    rw [hdisk _ (hheld.used t ht)]
  have htaken : (fs.take b).Used b := used_take.mpr (.inr ⟨rfl, hrange⟩)
  refine ⟨⟨⟨(hok.take hb).give htaken, ?_, rfl, fun p _ => ?_, fun c hc _ => ?_⟩, fun p _ => ?_,
    fun p _ hp => ?_, rfl⟩, hptrs⟩
  · rw [Held, hptrs]
    exact hheld.mono fun p hp => (hused _).mpr (hheld.used p hp)
  · exact .inl ⟨p, by rw [hptrs]⟩
  · exact ⟨(hused c).mpr hc, hdisk c hc⟩
  · rw [hptrs]
  · rw [hptrs] at hp ⊢
    rw [if_neg hp, hdisk _ (hheld.used p hp)]

end Extends

/-- One position loses its block, and with it the pointers below it. -/
structure Frees (fs : Fs) (din : Din) (fs' : Fs) (din' : Din) (p : Pos) : Prop extends
    Kept fs din fs' din' where
  self : ptrs fs' din' p = 0
  lost : ∀ q, ptrs fs' din' q = 0 ∨ ptrs fs' din' q = ptrs fs din q
  bare : Bare Pos.shape (ptrs fs din) p → ptrs fs' din' = update (ptrs fs din) p 0
  used : ∀ c, fs'.Used c ↔ fs.Used c ∧ c ≠ ptrs fs din p
  data : ∀ q, q.Leaf → ptrs fs din q ≠ 0 → fs'.disk (ptrs fs din q) = fs.disk (ptrs fs din q)
  same : din' = { din with
    direct := din'.direct, indirect := din'.indirect, dbIndirect := din'.dbIndirect }

/-- Nothing hangs below a block of the file. -/
lemma Pos.Leaf.bare (h : p.Leaf) : Bare Pos.shape (ptrs fs din) p :=
  fun _ hc => absurd h (Pos.not_leaf_of_parent hc)

namespace Frees

/-- There was no block. -/
lemma refl (hok : FsOk fs) (hheld : Held fs din) (hp : ptrs fs din p = 0) : Frees fs din fs din p where
  toKept := Kept.refl hok hheld
  self := hp
  lost _ := .inr rfl
  bare _ := by rw [← hp, update_eq_self]
  used _ := ⟨fun hc => ⟨hc, fun heq => hc.1 (heq.trans hp)⟩, And.left⟩
  data _ _ _ := rfl
  same := rfl

lemma ptrs_eq (h : Frees fs din fs' din' p) (hleaf : p.Leaf) : ptrs fs' din' = update (ptrs fs din) p 0 :=
  h.bare hleaf.bare

/-- One slot is cleared. -/
lemma of_clear (hheld : Held fs din) (hok' : FsOk fs') (hblocks : fs'.blocks = fs.blocks)
    (hused : ∀ c, fs'.Used c ↔ fs.Used c ∧ c ≠ ptrs fs din p)
    (hroot : ∀ q, q.parent = none → din'.root q.slot = if q = p then 0 else din.root q.slot)
    (hword : ∀ q r, q.parent = some r → ptrs fs din r ≠ 0 →
      word (fs'.disk (ptrs fs din r)) q.slot = if q = p then 0 else word (fs.disk (ptrs fs din r)) q.slot)
    (hdisk : ∀ c, (∀ q, ¬q.Leaf → ptrs fs din q ≠ c) → fs'.disk c = fs.disk c) (hsame : din' = { din with
      direct := din'.direct, indirect := din'.indirect, dbIndirect := din'.dbIndirect }) :
    Frees fs din fs' din' p := by
  have hclear := (ptrs_reads fs din).clear (ptrs_reads fs' din') hroot hword
  have hp : ptrs fs' din' p = 0 := (hclear p).1.resolve_right fun h => h.1 rfl
  have hlost : ∀ q, ptrs fs' din' q ≠ 0 → ptrs fs' din' q = ptrs fs din q :=
    fun q hq => ((hclear q).1.resolve_left hq).2
  refine ⟨⟨hok', ⟨fun q hq => ?_, fun q r hq hqr => ?_⟩, hblocks, fun q hq => .inl ⟨q, (hlost q hq).symm⟩,
    fun c hc hother => ⟨(hused c).mpr ⟨hc, (hother p).symm⟩, hdisk c fun q _ => hother q⟩⟩, hp,
    fun q => (hclear q).1.imp_right And.right, fun hbare => funext fun q => ?_, hused,
    fun q hq hne => hdisk _ fun r hr heq => ?_, hsame⟩
  · have hq' : ptrs fs din q ≠ 0 := hlost q hq ▸ hq
    rw [hused, hlost q hq]
    refine ⟨hheld.used q hq', fun heq => ?_⟩
    rw [hheld.inj q p hq' heq] at hq
    exact hq hp
  · have hr : ptrs fs' din' r ≠ 0 := hqr ▸ hq
    rw [hlost q hq, hlost r hr] at hqr
    exact hheld.inj q r (hlost q hq ▸ hq) hqr
  · rw [(hclear q).2 hbare, update_apply]
  · rw [hheld.inj q r hne heq.symm] at hq
    exact hr hq

/-- What is in use and does not belong to the file was not freed. -/
lemma rest (h : Frees fs din fs' din' p) (hbare : Bare Pos.shape (ptrs fs din) p) (hb : fs'.Used b)
    (hother : ∀ q, ptrs fs' din' q ≠ b) : fs.Used b ∧ ∀ q, ptrs fs din q ≠ b := by
  obtain ⟨hused, hne⟩ := (h.used b).mp hb
  refine ⟨hused, fun q heq => ?_⟩
  by_cases hqp : q = p
  · exact hne (hqp ▸ heq.symm)
  · refine hother q ?_
    rw [h.bare hbare, update_of_ne hqp, heq]

variable (hok : FsOk fs) (hheld : Held fs din)
include hok hheld

/-- A pointer in the inode is cleared. -/
lemma freeRoot (hparent : p.parent = none) (hp : ptrs fs din p ≠ 0) :
    Frees fs din (fs.give (ptrs fs din p)) (din.setRoot p 0) p := by
  refine of_clear hheld (hok.give (hheld.used p hp)) rfl (fun c => used_give) (fun q hq => ?_)
    (fun r s hr _ => ?_) (fun _ _ => rfl) ?_
  · rw [din.root_setRoot hparent 0 _ ⟨q, hq, rfl⟩, update_apply]
    simp only [Pos.slot_inj (hq.trans hparent.symm)]
  · rw [if_neg]
    · rfl
    · rintro rfl
      rw [hparent] at hr
      cases hr
  · cases p <;> rfl

/-- A pointer in an index block is cleared. -/
lemma freeChild (hparent : p.parent = some q)
    (hq : ptrs fs din q ≠ 0) (hp : ptrs fs din p ≠ 0) : Frees fs din ((fs.setBlock (ptrs fs din q)
      (setWord (fs.disk (ptrs fs din q)) p.slot 0)).give (ptrs fs din p)) din p := by
  set fs' := give _ _ with hfs'
  have hdisk : ∀ c, c ≠ ptrs fs din q → fs'.disk c = fs.disk c := by
    intro c hc
    simp [hfs', setBlock, give, update_of_ne hc]
  have hword : ∀ k, word (fs'.disk (ptrs fs din q)) k =
      update (word (fs.disk (ptrs fs din q))) p.slot 0 k := by
    intro k
    simp [hfs', setBlock, give, word_setWord (show 0 < 2 ^ 32 by norm_num)]
  refine of_clear hheld ((hok.setBlock _ _).give (hheld.used p hp)) rfl (fun c => used_give)
    (fun r hr => ?_) (fun r s hr hs => ?_) (fun c hc => hdisk c (hc q (Pos.not_leaf_of_parent hparent)).symm) rfl
  · rw [if_neg]
    rintro rfl
    rw [hparent] at hr
    cases hr
  · obtain rfl | hsq := eq_or_ne s q
    · rw [hword, update_apply]
      simp only [Pos.slot_inj (hr.trans hparent.symm)]
    · rw [hdisk _ fun heq => hsq (hheld.inj s q hs heq), if_neg]
      rintro rfl
      exact hsq (Option.some.inj (hr.symm.trans hparent))

end Frees

end Changes

end UcoreKernel.Sfs
