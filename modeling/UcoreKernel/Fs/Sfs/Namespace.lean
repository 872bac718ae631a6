import Mathlib.Data.BitVec
import UcoreKernel.Lib.Tally
import UcoreKernel.Fs.Sfs.Disk

/-!
The names on a volume, without blocks and without memory: which inodes there are, what each directory
lists, and the counters that are kept along with that.
-/

namespace UcoreKernel.Sfs

open Tally Function Nat

/-- The names on a volume. An entry is at a slot of a directory. -/
@[ext]
structure Tree where
  /-- The type of an inode, if it is allocated. -/
  kind : ℕ → Option FileType
  nlinks : ℕ → BitVec 16
  entry : ℕ × ℕ → Option (Name × ℕ)
  slots : ℕ → ℕ
  parent : ℕ → ℕ
  removed : ℕ → Bool

namespace Tree

/-! ### Changes of single fields -/

section Fields

variable (t : Tree)

/-- Another entry at a place. -/
@[simps] def setEntry (x : ℕ × ℕ) (e : Option (Name × ℕ)) : Tree :=
  { t with entry := update t.entry x e }

/-- Another number of entries. -/
@[simps] def setSlots (d slots : ℕ) : Tree := { t with slots := update t.slots d slots }

/-- More links, or fewer. -/
@[simps] def addLinks (n : ℕ) (k : BitVec 16) : Tree :=
  { t with nlinks := update t.nlinks n (t.nlinks n + k) }

/-- Another parent. -/
@[simps] def setParent (n parent : ℕ) : Tree := { t with parent := update t.parent n parent }

/-- A directory is marked as removed. -/
@[simps] def remove (n : ℕ) : Tree := { t with removed := update t.removed n true }

/-- A new inode. -/
@[simps] def add (n : ℕ) (type : FileType) : Tree := { t with kind := update t.kind n (some type) }

/-- An inode is released. -/
@[simps] def drop (n : ℕ) : Tree where
  kind := update t.kind n none
  nlinks := update t.nlinks n 0
  entry x := if x.1 = n then none else t.entry x
  slots := update t.slots n 0
  parent := update t.parent n 0
  removed := update t.removed n false

/-- A name is entered. -/
def link (d i : ℕ) (name : Name) (n : ℕ) : Tree :=
  ((t.setEntry (d, i) (some (name, n))).setSlots d (t.slots d + 1)).addLinks n 1

/-- A name is cleared. -/
def unlink (d i n : ℕ) : Tree :=
  ((t.setEntry (d, i) none).setSlots d (t.slots d - 1)).addLinks n (-1)

/-- A new directory is entered, with the links to itself and to its parent. -/
def mkdir (d i : ℕ) (name : Name) (n : ℕ) : Tree :=
  ((((t.add n .dir).link d i name n).setParent n d).addLinks n 1).addLinks d 1

/-- A directory is removed, with the links to itself and to its parent. -/
def rmdir (d i n : ℕ) : Tree := (((t.unlink d i n).remove n).addLinks n (-1)).addLinks d (-1)

/-- The name of a directory is cleared, with the link to its parent. -/
def detach (d i n : ℕ) : Tree := (t.unlink d i n).addLinks d (-1)

/-- A directory without a name is entered, with the link to its parent. -/
def attach (d i : ℕ) (name : Name) (n : ℕ) : Tree :=
  ((t.link d i name n).addLinks d 1).setParent n d

end Fields

/-! ### What is known about one inode -/

/-- The fields of one inode. -/
@[ext]
structure Record where
  kind : Option FileType
  nlinks : BitVec 16
  entry : ℕ → Option (Name × ℕ)
  slots : ℕ
  parent : ℕ
  removed : Bool

/-- What is known about an inode. -/
@[simps] def record (t : Tree) (n : ℕ) : Record where
  kind := t.kind n
  nlinks := t.nlinks n
  entry i := t.entry (n, i)
  slots := t.slots n
  parent := t.parent n
  removed := t.removed n

/-- Another record for one inode. -/
@[simps] def setRecord (t : Tree) (n : ℕ) (r : Record) : Tree where
  kind := update t.kind n r.kind
  nlinks := update t.nlinks n r.nlinks
  entry x := if x.1 = n then r.entry x.2 else t.entry x
  slots := update t.slots n r.slots
  parent := update t.parent n r.parent
  removed := update t.removed n r.removed

lemma record_setRecord (t : Tree) (n : ℕ) (r : Record) (m : ℕ) :
    (t.setRecord n r).record m = if m = n then r else t.record m := by
  obtain rfl | hm := eq_or_ne m n
  · simp [record]
  · simp [record, hm]

/-- A tree is given by its records. -/
lemma ext_record {t t' : Tree} (h : ∀ m, t'.record m = t.record m) : t' = t := by
  ext1
  · exact funext fun m => congrArg Record.kind (h m)
  · exact funext fun m => congrArg Record.nlinks (h m)
  · exact funext fun x => congrFun (congrArg Record.entry (h x.1)) x.2
  · exact funext fun m => congrArg Record.slots (h m)
  · exact funext fun m => congrArg Record.parent (h m)
  · exact funext fun m => congrArg Record.removed (h m)

/-- Two trees that differ in one record. -/
lemma eq_setRecord {t t' : Tree} {n : ℕ} {r : Record} (h : ∀ m, m ≠ n → t'.record m = t.record m)
    (hn : t'.record n = r) : t' = t.setRecord n r := by
  refine ext_record fun m => ?_
  grind [record_setRecord]

section Records

variable (t : Tree) (n : ℕ)

lemma setRecord_self : t.setRecord n (t.record n) = t :=
  (eq_setRecord (fun _ _ => rfl) rfl).symm

lemma addLinks_eq (k : BitVec 16) :
    t.addLinks n k = t.setRecord n { t.record n with nlinks := t.nlinks n + k } := by
  refine eq_setRecord (fun m hm => ?_) ?_
  · simp [record, addLinks, hm]
  · simp [record, addLinks]

lemma setSlots_eq (k : ℕ) : t.setSlots n k = t.setRecord n { t.record n with slots := k } := by
  refine eq_setRecord (fun m hm => ?_) ?_
  · simp [record, setSlots, hm]
  · simp [record, setSlots]

lemma setParent_eq (k : ℕ) : t.setParent n k = t.setRecord n { t.record n with parent := k } := by
  refine eq_setRecord (fun m hm => ?_) ?_
  · simp [record, setParent, hm]
  · simp [record, setParent]

lemma remove_eq : t.remove n = t.setRecord n { t.record n with removed := true } := by
  refine eq_setRecord (fun m hm => ?_) ?_
  · simp [record, remove, hm]
  · simp [record, remove]

lemma setEntry_eq (i : ℕ) (e : Option (Name × ℕ)) : t.setEntry (n, i) e =
      t.setRecord n { t.record n with entry := update (t.record n).entry i e } := by
  refine eq_setRecord (fun m hm => ?_) ?_
  · simp [record, setEntry, hm]
  · have hentry : (fun j => update t.entry (n, i) e (n, j)) = update (fun j => t.entry (n, j)) i e := by grind
    simp [record, setEntry, hentry]

lemma add_eq (type : FileType) : t.add n type = t.setRecord n { t.record n with kind := some type } := by
  refine eq_setRecord (fun m hm => ?_) ?_
  · simp [record, add, hm]
  · simp [record, add]

lemma drop_eq : t.drop n = t.setRecord n ⟨none, 0, fun _ => none, 0, 0, false⟩ := by
  refine eq_setRecord (fun m hm => ?_) ?_
  · simp [record, drop, hm]
  · simp [record, drop]

lemma setRecord_setRecord (r r' : Record) : (t.setRecord n r).setRecord n r' = t.setRecord n r' := by
  refine eq_setRecord (fun m hm => ?_) ?_
  · rw [record_setRecord, if_neg hm, record_setRecord, if_neg hm]
  · rw [record_setRecord, if_pos rfl]

end Records

/-! ### Counting -/

/-- An entry names an inode. -/
def Names (n : ℕ) (_ : ℕ × ℕ) (e : Option (Name × ℕ)) : Prop := e.map Prod.snd = some n

/-- An entry is in a directory. -/
def Fills (d : ℕ) (x : ℕ × ℕ) (e : Option (Name × ℕ)) : Prop := x.1 = d ∧ e ≠ none

/-- An entry is in a directory, and it names a directory. -/
def Subdir (t : Tree) (d : ℕ) (x : ℕ × ℕ) (e : Option (Name × ℕ)) : Prop :=
  x.1 = d ∧ (e.bind fun e => t.kind e.2) = some .dir

instance (n : ℕ) (x : ℕ × ℕ) (e : Option (Name × ℕ)) : Decidable (Names n x e) :=
  inferInstanceAs (Decidable (_ = _))

instance (d : ℕ) (x : ℕ × ℕ) (e : Option (Name × ℕ)) : Decidable (Fills d x e) :=
  inferInstanceAs (Decidable (_ ∧ _))

instance (t : Tree) (d : ℕ) (x : ℕ × ℕ) (e : Option (Name × ℕ)) : Decidable (t.Subdir d x e) :=
  inferInstanceAs (Decidable (_ ∧ _))

/-- The number of entries that name an inode. -/
noncomputable def refs (t : Tree) (n : ℕ) : ℕ := tally t.entry (Names n)

/-- The number of entries in a directory. -/
noncomputable def occupied (t : Tree) (d : ℕ) : ℕ := tally t.entry (Fills d)

/-- The number of entries in a directory that name directories. -/
noncomputable def subdirs (t : Tree) (d : ℕ) : ℕ := tally t.entry (t.Subdir d)

/-- The links of a directory to itself; the root is also its own parent. -/
def selfLinks (t : Tree) (n : ℕ) : ℕ :=
  if t.kind n = some .dir ∧ t.removed n = false then if n = blknRoot then 2 else 1 else 0

/-- The number of links of an inode: its entries, and for a directory the ones from itself and from its
subdirectories. -/
noncomputable def links (t : Tree) (n : ℕ) : ℕ := t.refs n + t.subdirs n + t.selfLinks n

/-- `nlinks` is the number of links, as far as it can be. -/
def Counted (t : Tree) (n : ℕ) : Prop := t.nlinks n = (t.links n : BitVec 16)

/-- The names are those of a file system. -/
structure Wired (t : Tree) : Prop where
  finite : {x | t.entry x ≠ none}.Finite
  zero : t.kind 0 = none
  root : t.kind blknRoot = some .dir ∧ t.removed blknRoot = false
  dirs : ∀ n, t.removed n = true → t.kind n = some .dir
  inDir : ∀ x, t.entry x ≠ none → t.kind x.1 = some .dir ∧ t.removed x.1 = false
  closed : ∀ x name n, t.entry x = some (name, n) →
    t.kind n ≠ none ∧ t.removed n = false ∧ n ≠ blknRoot
  names : ∀ d i j name m n, t.entry (d, i) = some (name, m) → t.entry (d, j) = some (name, n) → i = j
  once : ∀ x y a b n, t.kind n = some .dir → t.entry x = some (a, n) → t.entry y = some (b, n) → x = y

/-- The names are those of a file system, and the counters are right. -/
structure Ok (t : Tree) : Prop extends Wired t where
  slots : ∀ d, t.slots d = t.occupied d
  counted : ∀ n, t.Counted n

variable {t t' : Tree} {x : ℕ × ℕ} {d i n m : ℕ} {name : Name} {e : Option (Name × ℕ)}

/-- An entry that is there after a place has been cleared. -/
lemma of_clear {y : ℕ × ℕ} {e : Name × ℕ} (h : update t.entry x none y = some e) : y ≠ x ∧ t.entry y = some e := by
  by_cases hyx : y = x
  · rw [hyx, update_self] at h
    cases h
  · exact ⟨hyx, by rwa [update_of_ne hyx] at h⟩

namespace Wired

variable (h : t.Wired)
include h

/-- What is not a directory is not removed, and it is not the root. -/
lemma of_not_dir (hn : t.kind n ≠ some .dir) : t.removed n = false ∧ n ≠ blknRoot := by
  constructor
  · by_contra hne
    exact hn (h.dirs n (by simpa using hne))
  · rintro rfl
    exact hn h.root.1

lemma finite_of (P : ℕ × ℕ → Option (Name × ℕ) → Prop) (hP : ∀ x, ¬P x none) : {x | P x (t.entry x)}.Finite :=
  h.finite.subset fun x hx hnone => hP x (hnone ▸ hx)

section

variable (x : ℕ × ℕ) (e : Option (Name × ℕ))

lemma refs_setEntry (n : ℕ) : (t.setEntry x e).refs n + (if Names n x (t.entry x) then 1 else 0) =
      t.refs n + if Names n x e then 1 else 0 :=
  tally_update (Names n) (h.finite_of (Names n) fun _ => nofun) x e

lemma occupied_setEntry (d : ℕ) : (t.setEntry x e).occupied d + (if Fills d x (t.entry x) then 1 else 0) =
      t.occupied d + if Fills d x e then 1 else 0 :=
  tally_update (Fills d) (h.finite_of (Fills d) fun _ hx => hx.2 rfl) x e

lemma subdirs_setEntry (d : ℕ) : (t.setEntry x e).subdirs d + (if t.Subdir d x (t.entry x) then 1 else 0) =
      t.subdirs d + if t.Subdir d x e then 1 else 0 :=
  tally_update (t.Subdir d) (h.finite_of (t.Subdir d) fun _ hx => by cases hx.2) x e

/-- What an entry contributes to the links of an inode. -/
def share (t : Tree) (x : ℕ × ℕ) (e : Option (Name × ℕ)) (n : ℕ) : ℕ :=
  (if Names n x e then 1 else 0) + if t.Subdir n x e then 1 else 0

lemma links_setEntry (n : ℕ) :
    (t.setEntry x e).links n + share t x (t.entry x) n = t.links n + share t x e n := by
  have hrefs := h.refs_setEntry x e n
  have hsub := h.subdirs_setEntry x e n
  have hself : (t.setEntry x e).selfLinks n = t.selfLinks n := rfl
  rw [links, links, share, share, hself]
  omega

end

/-- A place is cleared. -/
lemma clear (x : ℕ × ℕ) : (t.setEntry x none).Wired := by
  have hold : ∀ y e, update t.entry x none y = some e → t.entry y = some e := fun _ _ hy => (of_clear hy).2
  refine ⟨finite_update (fun _ e => e ≠ none) h.finite x none, h.zero, h.root, h.dirs, fun y hy => ?_,
    fun y a n hy => h.closed y a n (hold y _ hy),
    fun d i j a m n hi hj => h.names d i j a m n (hold _ _ hi) (hold _ _ hj),
    fun y z a b n hn hy hz => h.once y z a b n hn (hold y _ hy) (hold z _ hz)⟩
  obtain ⟨e, he⟩ := Option.ne_none_iff_exists'.mp hy
  refine h.inDir y ?_
  rw [hold y e he]
  exact nofun

/-- A name is entered at a free place. -/
lemma enter (hdir : t.kind d = some .dir) (hremoved : t.removed d = false)
    (hname : ∀ j m, t.entry (d, j) ≠ some (name, m))
    (hn : t.kind n ≠ none) (hnremoved : t.removed n = false) (hroot : n ≠ blknRoot)
    (honce : t.kind n = some .dir → ∀ y a, t.entry y ≠ some (a, n)) :
    (t.setEntry (d, i) (some (name, n))).Wired := by
  have hcases : ∀ y e, update t.entry (d, i) (some (name, n)) y = some e →
      (y = (d, i) ∧ e = (name, n)) ∨ (y ≠ (d, i) ∧ t.entry y = some e) := by
    intro y e hy
    by_cases hyx : y = (d, i)
    · grind
    · grind
  refine ⟨finite_update (fun _ e => e ≠ none) h.finite _ _, h.zero, h.root, h.dirs, fun y hy => ?_,
    fun y a m hy => ?_, fun d' j k a m m' hj hk => ?_, fun y z a b m hm hy hz => ?_⟩
  · obtain ⟨e, he⟩ := Option.ne_none_iff_exists'.mp hy
    obtain ⟨rfl, -⟩ | ⟨-, hy⟩ := hcases y e he
    · exact ⟨hdir, hremoved⟩
    · refine h.inDir y ?_
      rw [hy]
      exact nofun
  · obtain ⟨-, heq⟩ | ⟨-, hy⟩ := hcases y _ hy
    · cases heq
      exact ⟨hn, hnremoved, hroot⟩
    · exact h.closed y a m hy
  · -- the new name is not one of the old ones
    obtain ⟨hx, heq⟩ | ⟨-, hj⟩ := hcases _ _ hj
    · obtain ⟨hx', -⟩ | ⟨-, hk⟩ := hcases _ _ hk
      · cases hx
        cases hx'
        rfl
      · grind
    · obtain ⟨hx', heq⟩ | ⟨-, hk⟩ := hcases _ _ hk
      · grind
      · exact h.names d' j k a m m' hj hk
  · obtain ⟨rfl, heq⟩ | ⟨-, hy⟩ := hcases _ _ hy
    · obtain ⟨hx', -⟩ | ⟨-, hz⟩ := hcases _ _ hz
      · exact hx'.symm
      · cases heq
        exact absurd hz (honce hm z b)
    · obtain ⟨-, heq⟩ | ⟨-, hz⟩ := hcases _ _ hz
      · cases heq
        exact absurd hy (honce hm y a)
      · exact h.once y z a b m hm hy hz

/-- Only these fields matter. -/
lemma of_eq (hkind : t'.kind = t.kind) (hentry : t'.entry = t.entry)
    (hremoved : t'.removed = t.removed) : t'.Wired := by
  obtain ⟨kind', nlinks', entry', slots', parent', removed'⟩ := t'
  subst hkind
  subst hentry
  subst hremoved
  exact { h with }

/-- No entry names an inode that is not there. -/
lemma not_named (hn : t.kind n = none) (y : ℕ × ℕ) (a : Name) :
    t.entry y ≠ some (a, n) := fun hy => (h.closed y a n hy).1 hn

/-- A new inode. -/
lemma add (hn : t.kind n = none) (h0 : n ≠ 0) (type : FileType) : (t.add n type).Wired := by
  obtain ⟨-, hroot⟩ := h.of_not_dir (by rw [hn]; exact nofun)
  have hold : ∀ m, t.kind m ≠ none → update t.kind n (some type) m = t.kind m := by grind
  refine ⟨h.finite, ?_, ⟨?_, h.root.2⟩, fun m hm => ?_, fun y hy => ?_, fun y a m hy => ?_, h.names,
    fun y z a b m hm hy hz => ?_⟩
  · exact (update_of_ne h0.symm _ _).trans h.zero
  · exact (update_of_ne hroot.symm _ _).trans h.root.1
  · have hdir := h.dirs m hm
    exact (hold m (by rw [hdir]; exact nofun)).trans hdir
  · obtain ⟨hdir, hremoved⟩ := h.inDir y hy
    exact ⟨(hold y.1 (by rw [hdir]; exact nofun)).trans hdir, hremoved⟩
  · obtain ⟨hm, hrest⟩ := h.closed y a m hy
    refine ⟨fun hnone => hm ?_, hrest⟩
    exact (hold m hm).symm.trans hnone
  · have hm' := (h.closed y a m hy).1
    exact h.once y z a b m ((hold m hm').symm.trans hm) hy hz

/-- A directory that lists nothing and that nothing names is marked as removed. -/
lemma remove (hdir : t.kind n = some .dir) (hroot : n ≠ blknRoot)
    (hempty : ∀ j, t.entry (n, j) = none) (hnone : ∀ y a, t.entry y ≠ some (a, n)) : (t.remove n).Wired := by
  have hold : ∀ m, m ≠ n → update t.removed n true m = t.removed m :=
    fun m hm => update_of_ne hm _ _
  refine ⟨h.finite, h.zero, ⟨h.root.1, ?_⟩, fun m hm => ?_, fun y hy => ?_, fun y a m hy => ?_, h.names, h.once⟩
  · exact (hold _ hroot.symm).trans h.root.2
  · by_cases hmn : m = n
    · exact hmn ▸ hdir
    · exact h.dirs m ((hold m hmn).symm.trans hm)
  · obtain ⟨hydir, hremoved⟩ := h.inDir y hy
    refine ⟨hydir, (hold _ ?_).trans hremoved⟩
    intro hyn
    subst hyn
    exact hy (hempty y.2)
  · obtain ⟨hm, hremoved, hmroot⟩ := h.closed y a m hy
    refine ⟨hm, (hold m ?_).trans hremoved, hmroot⟩
    rintro rfl
    exact hnone y a hy

/-- An inode that lists nothing and that nothing names is released. -/
lemma drop (hroot : n ≠ blknRoot) (hempty : ∀ j, t.entry (n, j) = none)
    (hnone : ∀ y a, t.entry y ≠ some (a, n)) : (t.drop n).Wired := by
  have hentry : (t.drop n).entry = t.entry := by
    funext y
    change (if y.1 = n then none else t.entry y) = t.entry y
    by_cases hy : y.1 = n
    · grind
    · rw [if_neg hy]
  have hkind : ∀ m, m ≠ n → (t.drop n).kind m = t.kind m := fun m hm => update_of_ne hm _ _
  have hremoved : ∀ m, m ≠ n → (t.drop n).removed m = t.removed m :=
    fun m hm => update_of_ne hm _ _
  have hin : ∀ y, t.entry y ≠ none → y.1 ≠ n := by
    rintro y hy rfl
    exact hy (hempty y.2)
  refine ⟨by rw [hentry]; exact h.finite, ?_, ⟨?_, ?_⟩, fun m hm => ?_, fun y hy => ?_,
    fun y a m hy => ?_, by rw [hentry]; exact h.names, fun y z a b m hm hy hz => ?_⟩
  · by_cases hn : n = 0
    · exact hn ▸ update_self ..
    · rw [hkind 0 (Ne.symm hn), h.zero]
  · rw [hkind _ hroot.symm, h.root.1]
  · rw [hremoved _ hroot.symm, h.root.2]
  · obtain rfl | hmn := eq_or_ne m n
    · have hfalse : (t.drop m).removed m = false := update_self ..
      rw [hfalse] at hm
      cases hm
    · rw [hkind m hmn]
      exact h.dirs m ((hremoved m hmn).symm.trans hm)
  · rw [hentry] at hy
    rw [hkind _ (hin y hy), hremoved _ (hin y hy)]
    exact h.inDir y hy
  · rw [hentry] at hy
    have hmn : m ≠ n := by
      rintro rfl
      exact hnone y a hy
    rw [hkind m hmn, hremoved m hmn]
    exact h.closed y a m hy
  · rw [hentry] at hy hz
    have hmn : m ≠ n := by
      rintro rfl
      exact hnone y a hy
    exact h.once y z a b m ((hkind m hmn).symm.trans hm) hy hz

end Wired

/-! ### The counters -/

/-- What `nlinks` counts too much. -/
noncomputable def balance (t : Tree) (n : ℕ) : BitVec 16 := t.nlinks n - (t.links n : BitVec 16)

lemma counted_iff : t.Counted n ↔ t.balance n = 0 := by
  rw [Counted, balance, sub_eq_zero]

lemma nlinks_addLinks (k : BitVec 16) : (t.addLinks n k).nlinks m = t.nlinks m + if m = n then k else 0 := by
  change update t.nlinks n (t.nlinks n + k) m = _
  obtain rfl | hm := eq_or_ne m n
  · rw [update_self, if_pos rfl]
  · rw [update_of_ne hm, if_neg hm, add_zero]

lemma balance_addLinks (k : BitVec 16) : (t.addLinks n k).balance m = t.balance m + if m = n then k else 0 := by
  have hlinks : (t.addLinks n k).links m = t.links m := rfl
  rw [balance, balance, hlinks, nlinks_addLinks]
  ring

lemma balance_setParent (p : ℕ) : (t.setParent n p).balance m = t.balance m := rfl

lemma share_none (t : Tree) (x : ℕ × ℕ) (m : ℕ) : Wired.share t x none m = 0 := by
  simp [Wired.share, Names, Subdir]

lemma share_some : Wired.share t (d, i) (some (name, n)) m =
    (if m = n then 1 else 0) + if m = d ∧ t.kind n = some .dir then 1 else 0 := by
  simp [Wired.share, Names, Subdir, eq_comm]

/-- A name that is entered counts for what it names, and a directory also for its parent. -/
lemma balance_link (h : t.Wired) (hfree : t.entry (d, i) = none) : (t.link d i name n).balance m =
      t.balance m - if m = d ∧ t.kind n = some .dir then 1 else 0 := by
  have hlinks := h.links_setEntry (d, i) (some (name, n)) m
  rw [hfree] at hlinks
  rw [share_none, share_some, add_zero] at hlinks
  have hlinks' : (t.link d i name n).links m = (t.setEntry (d, i) (some (name, n))).links m := rfl
  have hnlinks : (t.link d i name n).nlinks m = t.nlinks m + if m = n then 1 else 0 :=
    nlinks_addLinks _
  rw [balance, balance, hnlinks, hlinks', hlinks]
  push_cast
  ring

lemma balance_unlink (h : t.Wired) (he : t.entry (d, i) = some (name, n)) : (t.unlink d i n).balance m =
      t.balance m + if m = d ∧ t.kind n = some .dir then 1 else 0 := by
  have hlinks := h.links_setEntry (d, i) none m
  rw [he] at hlinks
  rw [share_none, share_some, add_zero] at hlinks
  have hlinks' : (t.unlink d i n).links m = (t.setEntry (d, i) none).links m := rfl
  have hnlinks : (t.unlink d i n).nlinks m = t.nlinks m - if m = n then 1 else 0 := by
    refine (nlinks_addLinks (-1)).trans ?_
    split_ifs with hm
    · rw [sub_eq_add_neg]
      rfl
    · rw [add_zero, sub_zero]
      rfl
  rw [balance, balance, hnlinks, hlinks', ← hlinks]
  simp only [cast_add, cast_ite, cast_one, cast_zero]
  ring

/-- A new inode has no links, but a directory has one to itself. -/
lemma balance_add (h : t.Wired) (hn : t.kind n = none) (type : FileType) :
    (t.add n type).balance m = t.balance m - if m = n ∧ type = .dir then 1 else 0 := by
  obtain ⟨hnremoved, hroot⟩ := h.of_not_dir (by rw [hn]; exact nofun)
  have hsub : (t.add n type).subdirs m = t.subdirs m := by
    refine tally_congr fun x => and_congr_right fun _ => ?_
    rw [add_entry]
    cases hx : t.entry x with
    | none => rfl
    | some e =>
      have hne : e.2 ≠ n := by
        rintro rfl
        exact h.not_named hn x e.1 hx
      simp [hne]
  have hself : (t.add n type).selfLinks m = t.selfLinks m + if m = n ∧ type = .dir then 1 else 0 := by
    obtain rfl | hm := eq_or_ne m n
    · simp [selfLinks, hn, hnremoved, hroot]
    · simp [selfLinks, hm]
  have hrefs : (t.add n type).refs m = t.refs m := rfl
  have hnlinks : (t.add n type).nlinks m = t.nlinks m := rfl
  rw [balance, balance, links, links, hnlinks, hrefs, hsub, hself]
  simp only [cast_add, cast_ite, cast_one, cast_zero]
  ring

/-- A removed directory has no link to itself. -/
lemma balance_remove (hdir : t.kind n = some .dir) (hremoved : t.removed n = false)
    (hroot : n ≠ blknRoot) : (t.remove n).balance m = t.balance m + if m = n then 1 else 0 := by
  have hself : (t.remove n).selfLinks m + (if m = n then 1 else 0) = t.selfLinks m := by
    obtain rfl | hm := eq_or_ne m n
    · simp [selfLinks, hdir, hremoved, hroot]
    · simp [selfLinks, hm]
  have hlinks : (t.remove n).refs m = t.refs m ∧ (t.remove n).subdirs m = t.subdirs m ∧
      (t.remove n).nlinks m = t.nlinks m := ⟨rfl, rfl, rfl⟩
  rw [balance, balance, links, links, hlinks.1, hlinks.2.1, hlinks.2.2, ← hself]
  simp only [cast_add, cast_ite, cast_one, cast_zero]
  ring

section

variable (h : t.Wired) (hslots : ∀ d, t.slots d = t.occupied d)
include h hslots

/-- `slots` counts the entries after one more has been entered. -/
lemma slots_link
    (hfree : t.entry (d, i) = none) (m : ℕ) : (t.link d i name n).slots m = (t.link d i name n).occupied m := by
  have hocc := h.occupied_setEntry (d, i) (some (name, n)) m
  change update t.slots d (t.slots d + 1) m = (t.setEntry (d, i) (some (name, n))).occupied m
  by_cases hm : m = d
  · grind [Fills]
  · grind [Fills]

lemma slots_unlink (he : t.entry (d, i) = some (name, n)) (m : ℕ) :
    (t.unlink d i n).slots m = (t.unlink d i n).occupied m := by
  have hocc := h.occupied_setEntry (d, i) none m
  change update t.slots d (t.slots d - 1) m = (t.setEntry (d, i) none).occupied m
  by_cases hm : m = d
  · grind [Fills]
  · grind [Fills]

end

/-- Only these fields matter for `slots`. -/
lemma slots_of_eq (h : ∀ d, t.slots d = t.occupied d) (hslots : t'.slots = t.slots)
    (hentry : t'.entry = t.entry) (d : ℕ) : t'.slots d = t'.occupied d := by
  rw [hslots, occupied, hentry]
  exact h d

/-! ### What the operations do -/

/-- A name can be entered at a place. -/
structure Room (t : Tree) (d i : ℕ) (name : Name) : Prop where
  dir : t.kind d = some .dir
  removed : t.removed d = false
  free : t.entry (d, i) = none
  name : ∀ j m, t.entry (d, j) ≠ some (name, m)

/-- What the operations on names do. A directory loses its name without being removed if a rename fails
and the old entry cannot be written back. -/
inductive Change (t : Tree) : Tree → Prop
  | link {d i n : ℕ} {name : Name} (hroom : t.Room d i name) (hn : t.kind n = some .file) :
      Change t (t.link d i name n)
  | create {d i n : ℕ} {name : Name} (hroom : t.Room d i name) (hn : t.kind n = none) (h0 : n ≠ 0) :
      Change t ((t.add n .file).link d i name n)
  | mkdir {d i n : ℕ} {name : Name} (hroom : t.Room d i name) (hn : t.kind n = none) (h0 : n ≠ 0) :
      Change t (t.mkdir d i name n)
  | unlink {d i n : ℕ} {name : Name} (he : t.entry (d, i) = some (name, n)) (hn : t.kind n = some .file) :
      Change t (t.unlink d i n)
  | rmdir {d i n : ℕ} {name : Name} (he : t.entry (d, i) = some (name, n)) (hn : t.kind n = some .dir)
      (hne : n ≠ d) (hempty : t.slots n = 0) : Change t (t.rmdir d i n)
  | rename {d i n : ℕ} {name newName : Name} (he : t.entry (d, i) = some (name, n))
      (hname : ∀ j m, t.entry (d, j) ≠ some (newName, m)) :
      Change t (t.setEntry (d, i) (some (newName, n)))
  | move {d i n d' j : ℕ} {name newName : Name} (he : t.entry (d, i) = some (name, n))
      (hn : t.kind n = some .file) (hne : d ≠ d') (hroom : t.Room d' j newName) :
      Change t ((t.unlink d i n).link d' j newName n)
  | moveDir {d i n d' j : ℕ} {name newName : Name} (he : t.entry (d, i) = some (name, n))
      (hn : t.kind n = some .dir) (hne : d ≠ d') (hroom : t.Room d' j newName) :
      Change t ((t.detach d i n).attach d' j newName n)
  | lose {d i n : ℕ} {name : Name} (he : t.entry (d, i) = some (name, n)) (hn : t.kind n = some .dir) :
      Change t (t.detach d i n)

/-- After the one name of a directory has been cleared, nothing names it. -/
lemma Wired.not_named_clear (h : t.Wired) (he : t.entry (d, i) = some (name, n))
    (hn : t.kind n = some .dir) (y : ℕ × ℕ) (a : Name) : (t.setEntry (d, i) none).entry y ≠ some (a, n) := by
  intro hy
  obtain ⟨hyx, hy⟩ := of_clear hy
  exact hyx (h.once y (d, i) a name n hn hy he)

/-- There is still room after an entry of another directory has been cleared. -/
lemma Room.clear {d' j : ℕ} {newName : Name} (h : t.Room d' j newName) (x : ℕ × ℕ) :
    (t.setEntry x none).Room d' j newName := by
  refine ⟨h.dir, h.removed, ?_, fun k m hk => h.name k m (of_clear hk).2⟩
  rw [setEntry_entry]
  by_cases hx : (d', j) = x
  · rw [hx, update_self]
  · rw [update_of_ne hx, h.free]

/-- An inode that is not there is another one. -/
lemma Room.ne (h : t.Room d i name) (hn : t.kind n = none) : d ≠ n := by
  rintro rfl
  rw [h.dir] at hn
  cases hn

/-- Only these fields matter for room. -/
lemma Room.of_eq (h : t.Room d i name) (hkind : t'.kind = t.kind) (hentry : t'.entry = t.entry)
    (hremoved : t'.removed = t.removed) : t'.Room d i name :=
  ⟨by rw [hkind, h.dir], by rw [hremoved, h.removed], by rw [hentry, h.free], by
    rw [hentry]
    exact h.name⟩

namespace Ok

section

variable (h : t.Ok)
include h

lemma balance_eq_zero (n : ℕ) : t.balance n = 0 := counted_iff.mp (h.counted n)

section

variable (hroom : t.Room d i name)
include hroom

lemma link (hn : t.kind n = some .file) : (t.link d i name n).Ok := by
  obtain ⟨hremoved, hroot⟩ := h.of_not_dir (by rw [hn]; exact nofun)
  refine ⟨?_, slots_link h.toWired h.slots hroom.free, fun m => ?_⟩
  · refine (h.enter hroom.dir hroom.removed hroom.name ?_ hremoved hroot ?_).of_eq rfl rfl rfl
    · rw [hn]
      exact nofun
    · rw [hn]
      exact nofun
  · rw [counted_iff, balance_link h.toWired hroom.free, if_neg, sub_zero, h.balance_eq_zero]
    rw [hn]
    exact fun hm => nomatch hm.2

lemma create (hn : t.kind n = none) (h0 : n ≠ 0) : ((t.add n .file).link d i name n).Ok := by
  have hdn := hroom.ne hn
  have hadd : (t.add n .file).Ok := by
    refine ⟨h.add hn h0 .file, h.slots, fun m => ?_⟩
    rw [counted_iff, balance_add h.toWired hn, if_neg (by simp), sub_zero, h.balance_eq_zero]
  refine hadd.link ⟨?_, hroom.removed, hroom.free, hroom.name⟩ ?_
  · rw [add_kind, update_of_ne hdn, hroom.dir]
  · rw [add_kind, update_self]

lemma mkdir (hn : t.kind n = none) (h0 : n ≠ 0) : (t.mkdir d i name n).Ok := by
  have hdn := hroom.ne hn
  obtain ⟨hremoved, hroot⟩ := h.of_not_dir (by rw [hn]; exact nofun)
  have hadd : (t.add n .dir).Wired := h.add hn h0 .dir
  have hdir : (t.add n .dir).kind n = some .dir := update_self ..
  have hlink : ((t.add n .dir).link d i name n).Wired := by
    refine (hadd.enter ?_ hroom.removed hroom.name ?_ hremoved hroot fun _ =>
      h.not_named hn).of_eq rfl rfl rfl
    · rw [add_kind, update_of_ne hdn, hroom.dir]
    · rw [hdir]
      exact nofun
  refine ⟨hlink.of_eq rfl rfl rfl, slots_of_eq (slots_link hadd h.slots hroom.free) rfl rfl, fun m => ?_⟩
  rw [counted_iff, Tree.mkdir, balance_addLinks, balance_addLinks, balance_setParent,
    balance_link hadd hroom.free, balance_add h.toWired hn, h.balance_eq_zero, hdir]
  simp only [and_true]
  ring

end

lemma unlink (he : t.entry (d, i) = some (name, n)) (hn : t.kind n = some .file) : (t.unlink d i n).Ok := by
  refine ⟨(h.clear (d, i)).of_eq rfl rfl rfl, slots_unlink h.toWired h.slots he, fun m => ?_⟩
  rw [counted_iff, balance_unlink h.toWired he, if_neg, add_zero, h.balance_eq_zero]
  rw [hn]
  exact fun hm => nomatch hm.2

lemma detach (he : t.entry (d, i) = some (name, n)) (hn : t.kind n = some .dir) : (t.detach d i n).Ok := by
  refine ⟨(h.clear (d, i)).of_eq rfl rfl rfl, slots_of_eq (slots_unlink h.toWired h.slots he) rfl rfl, fun m => ?_⟩
  rw [counted_iff, Tree.detach, balance_addLinks, balance_unlink h.toWired he, h.balance_eq_zero, hn]
  simp only [and_true, zero_add]
  split_ifs <;> simp

lemma attach (hroom : t.Room d i name) (hn : t.kind n = some .dir)
    (hremoved : t.removed n = false) (hroot : n ≠ blknRoot)
    (hnone : ∀ y a, t.entry y ≠ some (a, n)) : (t.attach d i name n).Ok := by
  refine ⟨?_, slots_of_eq (slots_link h.toWired h.slots hroom.free) rfl rfl, fun m => ?_⟩
  · refine (h.enter hroom.dir hroom.removed hroom.name ?_ hremoved hroot fun _ => hnone).of_eq rfl rfl rfl
    rw [hn]
    exact nofun
  · rw [counted_iff, Tree.attach, balance_setParent, balance_addLinks,
      balance_link h.toWired hroom.free, h.balance_eq_zero, hn]
    simp only [and_true]
    ring

variable (he : t.entry (d, i) = some (name, n))
include he

lemma rmdir (hn : t.kind n = some .dir) (hne : n ≠ d) (hempty : t.slots n = 0) : (t.rmdir d i n).Ok := by
  obtain ⟨-, hremoved, hroot⟩ := h.closed _ _ _ he
  have hlist : ∀ j, t.entry (n, j) = none := by
    intro j
    have hocc : t.occupied n = 0 := (h.slots n).symm.trans hempty
    by_contra hj
    exact not_of_tally_eq_zero (h.finite_of (Fills n) fun _ hx => hx.2 rfl) hocc (n, j) ⟨rfl, hj⟩
  have hclear : (t.unlink d i n).Wired := (h.clear (d, i)).of_eq rfl rfl rfl
  have hwired : ((t.unlink d i n).remove n).Wired := by
    refine hclear.remove hn hroot (fun j => ?_) (h.not_named_clear he hn)
    change update t.entry (d, i) none (n, j) = none
    grind
  refine ⟨hwired.of_eq rfl rfl rfl, slots_of_eq (slots_unlink h.toWired h.slots he) rfl rfl, fun m => ?_⟩
  rw [counted_iff, Tree.rmdir, balance_addLinks, balance_addLinks,
    balance_remove (t := t.unlink d i n) hn hremoved hroot, balance_unlink h.toWired he,
    h.balance_eq_zero, hn]
  simp only [and_true, zero_add]
  split_ifs <;> simp

lemma rename {newName : Name}
    (hname : ∀ j m, t.entry (d, j) ≠ some (newName, m)) : (t.setEntry (d, i) (some (newName, n))).Ok := by
  obtain ⟨hn, hremoved, hroot⟩ := h.closed _ _ _ he
  obtain ⟨hdir, hdremoved⟩ := h.inDir (d, i) (by rw [he]; exact nofun)
  have hclear := h.clear (d, i)
  have htwice : (t.setEntry (d, i) none).setEntry (d, i) (some (newName, n)) =
      t.setEntry (d, i) (some (newName, n)) := by
    simp [setEntry]
  have hnew : ∀ j m, (t.setEntry (d, i) none).entry (d, j) ≠ some (newName, m) := fun j m hj =>
    hname j m (of_clear hj).2
  refine ⟨?_, fun m => ?_, fun m => ?_⟩
  · rw [← htwice]
    exact hclear.enter hdir hdremoved hnew hn hremoved hroot fun hndir => h.not_named_clear he hndir
  · have hocc := h.occupied_setEntry (d, i) (some (newName, n)) m
    rw [he] at hocc
    have hslots : (t.setEntry (d, i) (some (newName, n))).slots m = t.slots m := rfl
    simp only [Fills, ne_eq, reduceCtorEq, not_false_eq_true, and_true] at hocc
    rw [hslots, h.slots]
    omega
  · have hlinks := h.links_setEntry (d, i) (some (newName, n)) m
    rw [he] at hlinks
    have hshare : Wired.share t (d, i) (some (name, n)) m = Wired.share t (d, i) (some (newName, n)) m := rfl
    have hsame : (t.setEntry (d, i) (some (newName, n))).links m = t.links m := by
      omega
    rw [Counted, hsame]
    exact h.counted m

end

/-- Every operation on names keeps the names and the counters in order. -/
theorem change (h : t.Ok) (hchange : t.Change t') : t'.Ok := by
  cases hchange with
  | link hroom hn => exact h.link hroom hn
  | create hroom hn h0 => exact h.create hroom hn h0
  | mkdir hroom hn h0 => exact h.mkdir hroom hn h0
  | unlink he hn => exact h.unlink he hn
  | rmdir he hn hne hempty => exact h.rmdir he hn hne hempty
  | rename he hname => exact h.rename he hname
  | move he hn hne hroom =>
    exact (h.unlink he hn).link ((hroom.clear _).of_eq rfl rfl rfl) hn
  | moveDir he hn hne hroom =>
    obtain ⟨-, hremoved, hroot⟩ := h.closed _ _ _ he
    exact (h.detach he hn).attach ((hroom.clear _).of_eq rfl rfl rfl) hn hremoved hroot (h.not_named_clear he hn)
  | lose he hn => exact h.detach he hn

/-- An inode without links lists nothing, and nothing names it. -/
lemma isolated (h : t.Ok) (h0 : t.links n = 0) :
    n ≠ blknRoot ∧ (∀ j, t.entry (n, j) = none) ∧ ∀ y a, t.entry y ≠ some (a, n) := by
  have hself : t.selfLinks n = 0 := by
    rw [links] at h0
    omega
  have hrefs : t.refs n = 0 := by
    rw [links] at h0
    omega
  refine ⟨?_, fun j => ?_, fun y a hy => ?_⟩
  · rintro rfl
    simp [selfLinks, h.root] at hself
  · by_contra hj
    obtain ⟨hdir, hremoved⟩ := h.inDir (n, j) hj
    grind [selfLinks]
  · refine not_of_tally_eq_zero (h.finite_of (Names n) fun _ => nofun) hrefs y ?_
    rw [Names, hy]
    rfl

/-- Releasing an inode without links keeps the names and the counters in order. -/
theorem drop (h : t.Ok) (h0 : t.links n = 0) : (t.drop n).Ok := by
  obtain ⟨hroot, hempty, hnone⟩ := h.isolated h0
  have hentry : (t.drop n).entry = t.entry := by
    funext y
    rw [drop_entry]
    by_cases hy : y.1 = n
    · grind
    · rw [if_neg hy]
  refine ⟨h.toWired.drop hroot hempty hnone, fun m => ?_, fun m => ?_⟩
  · have hocc : (t.drop n).occupied m = t.occupied m := by rw [occupied, hentry, occupied]
    rw [hocc]
    obtain rfl | hm := eq_or_ne m n
    · have hzero : t.occupied m = 0 := by
        refine tally_eq_zero ?_
        rintro ⟨d, j⟩ ⟨rfl, hj⟩
        exact hj (hempty j)
      rw [drop_slots, update_self, hzero]
    · rw [drop_slots, update_of_ne hm, h.slots]
  · have hrefs : (t.drop n).refs m = t.refs m := by rw [refs, hentry, refs]
    have hsub : (t.drop n).subdirs m = t.subdirs m := by
      rw [subdirs, hentry, subdirs]
      refine tally_congr fun x => and_congr_right fun _ => ?_
      cases hx : t.entry x with
      | none => rfl
      | some e =>
        have hne : e.2 ≠ n := by
          rintro rfl
          exact hnone x e.1 hx
        simp [hne]
    obtain rfl | hm := eq_or_ne m n
    · have hself : (t.drop m).selfLinks m = 0 := by simp [selfLinks]
      have hzero : (t.drop m).links m = 0 := by
        rw [links] at h0 ⊢
        omega
      rw [Counted, hzero, drop_nlinks, update_self]
      rfl
    · have hself : (t.drop n).selfLinks m = t.selfLinks m := by simp [selfLinks, hm]
      rw [Counted, links, hrefs, hsub, hself, drop_nlinks, update_of_ne hm]
      exact h.counted m

end Ok

end Tree

end UcoreKernel.Sfs
