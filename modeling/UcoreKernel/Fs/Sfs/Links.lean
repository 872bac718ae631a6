import UcoreKernel.Fs.Sfs.Namespace

/-!
What one operation does to the names of a volume, when no inode has more links than `nlinks` can count.
-/

namespace UcoreKernel.Sfs

open Tally Function

namespace Tree

variable {t t' : Tree} {x : ℕ × ℕ} {d i n m : ℕ} {name : Name}

/-- No inode has more links than `nlinks` can count. -/
def NoWrap (t : Tree) : Prop := ∀ n, t.links n ≤ 65535

/-! ### What is counted -/

lemma Wired.one_le_refs (h : t.Wired) (he : t.entry x = some (name, n)) : 1 ≤ t.refs n := by
  by_contra hlt
  refine not_of_tally_eq_zero (h.finite_of (Names n) fun _ => nofun) (by rw [refs] at hlt; omega) x ?_
  rw [Names, he]
  rfl

section

variable (h : t.Wired) (he : t.entry (d, i) = some (name, n))
include h he

lemma Wired.one_le_subdirs (hn : t.kind n = some .dir) : 1 ≤ t.subdirs d := by
  by_contra hlt
  refine not_of_tally_eq_zero (h.finite_of (t.Subdir d) fun _ hx => by cases hx.2)
    (by rw [subdirs] at hlt; omega) (d, i) ⟨rfl, ?_⟩
  rw [he]
  exact hn

lemma Wired.one_le_occupied : 1 ≤ t.occupied d := by
  by_contra hlt
  refine not_of_tally_eq_zero (h.finite_of (Fills d) fun _ hx => hx.2 rfl)
    (by rw [occupied] at hlt; omega) (d, i) ⟨rfl, ?_⟩
  rw [he]
  simp

end

lemma one_le_selfLinks (hn : t.kind n = some .dir) (hremoved : t.removed n = false) :
    1 ≤ t.selfLinks n := by grind [selfLinks]

/-- A directory that is named has two links. -/
lemma Wired.two_le_links (h : t.Wired) (he : t.entry x = some (name, n)) (hn : t.kind n = some .dir) :
    2 ≤ t.links n := by
  have hrefs := h.one_le_refs he
  have hself := one_le_selfLinks hn (h.closed x name n he).2.1
  rw [links]
  omega

/-- So has one that lists a directory. -/
lemma Wired.two_le_links_dir (h : t.Wired) (he : t.entry (d, i) = some (name, n))
    (hn : t.kind n = some .dir) : 2 ≤ t.links d := by
  have hsub := h.one_le_subdirs he hn
  have hdir := h.inDir (d, i) (by rw [he]; exact nofun)
  grind [one_le_selfLinks, links]

/-- A removed directory has no links. -/
lemma Wired.links_of_removed (h : t.Wired) (hremoved : t.removed n = true) : t.links n = 0 := by
  have hrefs : t.refs n = 0 := by
    refine tally_eq_zero fun x hx => ?_
    cases he : t.entry x with
    | none =>
      rw [Names, he] at hx
      cases hx
    | some e =>
      rw [Names, he] at hx
      cases hx
      have hclosed := (h.closed x e.1 e.2 he).2.1
      rw [hremoved] at hclosed
      cases hclosed
  have hsub : t.subdirs n = 0 := by
    refine tally_eq_zero fun x hx => ?_
    obtain ⟨rfl, hx⟩ := hx
    have hin := h.inDir x fun hnone => by rw [hnone] at hx; cases hx
    rw [hremoved] at hin
    cases hin.2
  grind [links, selfLinks]

namespace Ok

section

variable (h : t.Ok) (hle : t.links n ≤ 65535)
include h hle

lemma toNat_nlinks : (t.nlinks n).toNat = t.links n := by
  rw [h.counted n, BitVec.natCast_eq_ofNat, BitVec.toNat_ofNat, Nat.mod_eq_of_lt (by omega)]

lemma links_eq_zero (h0 : t.nlinks n = 0) : t.links n = 0 := by
  rw [← h.toNat_nlinks hle, h0]
  rfl

lemma nlinks_ne_zero (hpos : 1 ≤ t.links n) : t.nlinks n ≠ 0 := by
  intro h0
  have hzero := h.links_eq_zero hle h0
  omega

/-- One link less is not none at all. -/
lemma nlinks_sub_one_ne_zero (hpos : 2 ≤ t.links n) : t.nlinks n + -1 ≠ 0 := by
  have htoNat := h.toNat_nlinks hle
  intro h0
  have h1 : t.nlinks n = 1 := by bv_omega
  grind

end

/-- There is an entry to clear. -/
lemma slots_ne_zero (h : t.Ok) (he : t.entry (d, i) = some (name, n)) : t.slots d ≠ 0 := by
  have hocc := h.one_le_occupied he
  rw [h.slots]
  omega

end Ok

/-! ### Links along a change -/

lemma Wired.links_clear_le (h : t.Wired) (x : ℕ × ℕ) (n : ℕ) : (t.setEntry x none).links n ≤ t.links n := by
  have hlinks := h.links_setEntry x none n
  grind [Wired.share, Names, Subdir]

/-- An inode has one link less after a name of it has been cleared. -/
lemma Wired.links_clear (h : t.Wired) (he : t.entry (d, i) = some (name, n)) :
    (t.setEntry (d, i) none).links n + 1 ≤ t.links n := by
  have hlinks := h.links_setEntry (d, i) none n
  grind [Wired.share, Names, Subdir]

/-- An inode has one link more after it has been entered, unless that is in itself. -/
lemma Wired.links_enter (h : t.Wired) (hfree : t.entry (d, i) = none) (hne : d ≠ n) :
    (t.setEntry (d, i) (some (name, n))).links n = t.links n + 1 := by
  have hlinks := h.links_setEntry (d, i) (some (name, n)) n
  grind [Wired.share, Names, Subdir]

/-- Moving an inode to another directory, which is not itself, leaves it the links that it had. -/
lemma Wired.links_move (h : t.Wired) {d' j : ℕ} {newName : Name} (he : t.entry (d, i) = some (name, n))
    (hfree : t.entry (d', j) = none) (hne : d' ≠ n) :
    ((t.setEntry (d, i) none).setEntry (d', j) (some (newName, n))).links n ≤ t.links n := by
  have hclear := h.links_clear he
  have hfree' : (t.setEntry (d, i) none).entry (d', j) = none := by
    rw [setEntry_entry]
    by_cases hx : (d', j) = (d, i)
    · rw [hx, update_self]
    · rw [update_of_ne hx, hfree]
  rw [(h.clear (d, i)).links_enter hfree' hne]
  exact hclear

/-! ### An entry that is put back -/

/-- A name that is cleared and entered again. -/
lemma link_unlink (he : t.entry (d, i) = some (name, n)) (hslots : t.slots d ≠ 0) :
    (t.unlink d i n).link d i name n = t := by
  refine Tree.ext rfl ?_ ?_ ?_ rfl rfl
  · funext m
    change update (update t.nlinks n (t.nlinks n + -1)) n (update t.nlinks n (t.nlinks n + -1) n + 1) m = t.nlinks m
    by_cases hm : m = n
    · grind
    · rw [update_of_ne hm, update_of_ne hm]
  · change update (update t.entry (d, i) none) (d, i) (some (name, n)) = t.entry
    rw [update_idem, ← he, update_eq_self]
  · change update (update t.slots d (t.slots d - 1)) d (update t.slots d (t.slots d - 1) d + 1) = t.slots
    grind

lemma addLinks_addLinks (k l : BitVec 16) : (t.addLinks n k).addLinks n l = t.addLinks n (k + l) := by
  refine Tree.ext rfl ?_ rfl rfl rfl rfl
  simp [addLinks, add_assoc]

lemma addLinks_comm (k l : BitVec 16) : (t.addLinks n k).addLinks m l = (t.addLinks m l).addLinks n k := by
  refine Tree.ext rfl ?_ rfl rfl rfl rfl
  grind [nlinks_addLinks]

lemma addLinks_zero : t.addLinks n 0 = t := by
  refine Tree.ext rfl ?_ rfl rfl rfl rfl
  simp [addLinks]

lemma link_addLinks (k : BitVec 16) : (t.addLinks m k).link d i name n = (t.link d i name n).addLinks m k :=
  addLinks_comm (t := (t.setEntry (d, i) (some (name, n))).setSlots d (t.slots d + 1)) k 1

/-- A directory whose name is cleared and entered again. -/
lemma link_detach (he : t.entry (d, i) = some (name, n)) (hslots : t.slots d ≠ 0) :
    ((t.detach d i n).link d i name n).addLinks d 1 = t := by
  rw [detach, link_addLinks, link_unlink he hslots, addLinks_addLinks, neg_add_cancel, addLinks_zero]

/-- A new inode that is released at once. -/
lemma drop_add (hn : t.record n = ⟨none, 0, fun _ => none, 0, 0, false⟩) (type : FileType) :
    (t.add n type).drop n = t := by
  rw [drop_eq, add_eq, setRecord_setRecord, ← hn, setRecord_self]

/-! ### Operations as a whole -/

/-- What an operation does to the names: one change at most, after which an inode without links may be
released. -/
def Turn (t t' : Tree) : Prop :=
  ∃ t₁, (t₁ = t ∨ t.Change t₁) ∧ (t' = t₁ ∨ ∃ n, t₁.links n = 0 ∧ t' = t₁.drop n)

lemma Turn.refl (t : Tree) : t.Turn t := ⟨t, .inl rfl, .inl rfl⟩

lemma Turn.of_change (h : t.Change t') : t.Turn t' := ⟨t', .inr h, .inl rfl⟩

theorem Ok.turn (h : t.Ok) (hturn : t.Turn t') : t'.Ok := by
  obtain ⟨t1, hchange, hdrop⟩ := hturn
  have h1 : t1.Ok := by
    obtain rfl | hchange := hchange
    · exact h
    · exact h.change hchange
  obtain rfl | ⟨n, h0, rfl⟩ := hdrop
  · exact h1
  · exact h1.drop h0

/-! ### Parents -/

/-- A directory that is named has the directory that lists it as its parent, and the root has itself. -/
structure Parented (t : Tree) : Prop where
  root : t.parent blknRoot = blknRoot
  named : ∀ x name n, t.entry x = some (name, n) → t.kind n = some .dir → t.parent n = x.1

namespace Parented

section

variable (h : t.Parented) (hkind : t'.kind = t.kind) (hparent : t'.parent = t.parent)
include h hkind hparent

/-- Entries are cleared. -/
lemma of_entry (hentry : ∀ x e, t'.entry x = some e → t.kind e.2 = some .dir →
      ∃ y name, y.1 = x.1 ∧ t.entry y = some (name, e.2)) : t'.Parented := by
  refine ⟨by rw [hparent, h.root], fun x name n hx hn => ?_⟩
  rw [hkind] at hn
  obtain ⟨y, a, hy, he⟩ := hentry x (name, n) hx hn
  rw [hparent, h.named y a n he hn, hy]

lemma clear (hentry : t'.entry = update t.entry x none) : t'.Parented := by
  refine h.of_entry hkind hparent fun y e hy _ => ?_
  rw [hentry] at hy
  by_cases hyx : y = x
  · rw [hyx, update_self] at hy
    cases hy
  · grind

/-- A file is entered. -/
lemma enter (hn : t.kind n ≠ some .dir) (hentry : t'.entry = update t.entry x (some (name, n))) :
    t'.Parented := by
  refine h.of_entry hkind hparent fun y e hy hdir => ?_
  rw [hentry] at hy
  by_cases hyx : y = x
  · grind
  · grind

end

section

variable (h : t.Parented)
include h

/-- A directory without a name is entered, and its parent is set. -/
lemma attach (hnone : ∀ y a, t.entry y ≠ some (a, n)) (hroot : n ≠ blknRoot)
    (hkind : t'.kind = t.kind) (hparent : t'.parent = update t.parent n d)
    (hentry : t'.entry = update t.entry (d, i) (some (name, n))) : t'.Parented := by
  refine ⟨by rw [hparent, update_of_ne hroot.symm, h.root], fun x a m hx hm => ?_⟩
  rw [hkind] at hm
  rw [hentry] at hx
  rw [hparent]
  by_cases hxd : x = (d, i)
  · grind
  · rw [update_of_ne hxd] at hx
    have hmn : m ≠ n := by
      rintro rfl
      exact hnone x a hx
    rw [update_of_ne hmn, h.named x a m hx hm]

/-- A new inode. -/
lemma add (hw : t.Wired) (hn : t.kind n = none) (type : FileType) : (t.add n type).Parented := by
  refine ⟨h.root, fun x a m hx hm => h.named x a m hx ?_⟩
  have hmn : m ≠ n := by
    rintro rfl
    exact hw.not_named hn x a hx
  rw [add_kind, update_of_ne hmn] at hm
  exact hm

lemma drop (hroot : n ≠ blknRoot) (hnone : ∀ y a, t.entry y ≠ some (a, n)) : (t.drop n).Parented := by
  refine ⟨(update_of_ne hroot.symm ..).trans h.root, fun x a m hx hm => ?_⟩
  rw [drop_entry] at hx
  split_ifs at hx
  have hmn : m ≠ n := by
    rintro rfl
    exact hnone x a hx
  rw [drop_kind, update_of_ne hmn] at hm
  rw [drop_parent, update_of_ne hmn, h.named x a m hx hm]

lemma change (hok : t.Ok) (hchange : t.Change t') : t'.Parented := by
  cases hchange with
  | link hroom hn => exact h.enter rfl rfl (by rw [hn]; exact nofun) rfl
  | @create d i n name hroom hn h0 =>
    have hfile : (t.add n .file).kind n = some .file := update_self ..
    exact (h.add hok.toWired hn .file).enter rfl rfl (by rw [hfile]; exact nofun) rfl
  | @mkdir d i n name hroom hn h0 =>
    refine (h.add hok.toWired hn .dir).attach (hok.not_named hn) ?_ rfl rfl rfl
    rintro rfl
    rw [hok.root.1] at hn
    cases hn
  | unlink | rmdir | lose => exact h.clear rfl rfl rfl
  | @rename d i n name newName he hname =>
    refine h.of_entry rfl rfl fun y e hy _ => ?_
    rw [setEntry_entry] at hy
    by_cases hyx : y = (d, i)
    · grind
    · grind
  | @move d i n d' j name newName he hn hne hroom =>
    have hclear : (t.unlink d i n).Parented := h.clear rfl rfl rfl
    have hfile : (t.unlink d i n).kind n = some .file := hn
    exact hclear.enter rfl rfl (by rw [hfile]; exact nofun) rfl
  | @moveDir d i n d' j name newName he hn hne hroom =>
    have hclear : (t.detach d i n).Parented := h.clear rfl rfl rfl
    exact hclear.attach (hok.not_named_clear he hn) (hok.closed _ _ _ he).2.2 rfl rfl rfl

end

/-- What operations do keeps the parents. -/
theorem turn (h : t.Parented) (hok : t.Ok) (hturn : t.Turn t') : t'.Parented := by
  obtain ⟨t1, hchange, hdrop⟩ := hturn
  have h1 : t1.Ok ∧ t1.Parented := by
    obtain rfl | hchange := hchange
    · exact ⟨hok, h⟩
    · exact ⟨hok.change hchange, h.change hok hchange⟩
  obtain rfl | ⟨n, h0, rfl⟩ := hdrop
  · exact h1.2
  · obtain ⟨hroot, -, hnone⟩ := h1.1.isolated h0
    exact h1.2.drop hroot hnone

/-- The parent of a directory that is named is a directory. -/
lemma dir (h : t.Parented) (hok : t.Ok) (hn : t.kind n = some .dir)
    (hnamed : n = blknRoot ∨ ∃ x name, t.entry x = some (name, n)) : t.kind (t.parent n) = some .dir := by
  obtain rfl | ⟨x, name, hx⟩ := hnamed
  · rw [h.root]
    exact hok.root.1
  · rw [h.named x name n hx hn]
    exact (hok.inDir x (by rw [hx]; exact nofun)).1

end Parented

end Tree

end UcoreKernel.Sfs
