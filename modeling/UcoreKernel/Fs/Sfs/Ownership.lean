import UcoreKernel.Fs.Sfs.Directory
import UcoreKernel.Fs.Sfs.Namespace

/-!
Which inode owns which block, over a whole volume.

A block is owned by an inode itself, or by a position of its block map. What one inode does with the
blocks that it owns is of no concern to the others.
-/

namespace UcoreKernel.Sfs

open ByteBlock PointerTree

variable {fs fs' : Fs} {din : Din} {sin : Sin} {p : Pos} {n m : ℕ} {v v' : Vol} {node : Node}

/-! ### Blocks that stay the same -/

section

variable (h : ∀ p, ptrs fs din p ≠ 0 → fs'.disk (ptrs fs din p) = fs.disk (ptrs fs din p))
include h

/-- The pointers are the same if the blocks are. -/
lemma ptrs_frame : ptrs fs' din = ptrs fs din := by
  refine (ptrs_reads fs' din).unique ((ptrs_reads fs din).congr (fun _ _ => rfl) fun p q _ hq => ?_)
  rw [h q hq]

/-- So is the content. -/
lemma content_frame : content fs' din = content fs din := by
  funext k
  unfold content
  rw [ptrs_frame h]
  grind

end

/-! ### Volumes in order -/

/-- What is right about an inode by itself. -/
structure Shaped (fs : Fs) (din : Din) : Prop where
  mapped : ∀ i < din.blocks, ∃ p, Pos.ofIndex i = some p ∧ ptrs fs din p ≠ 0
  fits : din.Fits
  type : din.type = .dir ∨ din.type = .file
  size : din.type = .file → din.size ≤ (din.blocks + 1) * blkSize

/-- An inode on disk is as good as the one in memory; it may have fewer blocks, if it is a file. -/
def Backed (disk din : Din) : Prop :=
  ∃ b ≤ din.blocks, disk = { din with blocks := b } ∧ (din.type = .dir → b = din.blocks) ∧
    (din.type = .file → din.size ≤ (b + 1) * blkSize)

namespace Vol

/-- The block at a place: an inode itself, or a position of its block map. -/
def place (v : Vol) (x : ℕ × Option Pos) : ℕ :=
  if x.1 ∈ v.inodes then
    match x.2 with
    | none => x.1
    | some p => ptrs v.fs (v.din x.1) p
  else 0

/-- A volume in order. -/
structure Sound (v : Vol) : Prop where
  ok : FsOk v.fs
  zero : 0 ∉ v.inodes
  owns : Owns v.fs.Used v.place
  shaped : ∀ n ∈ v.inodes, Shaped v.fs (v.din n)
  cached : ∀ n node, v.cache n = some node → n ∈ v.inodes ∧ 0 < node.ref ∧ node.reclaimCount = 1
  backed : ∀ n node, v.cache n = some node → node.sin.dirty = false → node.sin.din.nlinks ≠ 0 →
    Backed (.ofBlock (v.fs.disk n)) node.sin.din
  linked : ∀ n ∈ v.inodes, v.cache n = none → (v.din n).nlinks ≠ 0

/-- The names on a volume. -/
def tree (v : Vol) : Tree where
  kind n := if n ∈ v.inodes then some (v.din n).type else none
  nlinks n := if n ∈ v.inodes then (v.din n).nlinks else 0
  entry x := if x.1 ∈ v.inodes ∧ (v.din x.1).type = .dir then entries v.fs (v.din x.1) x.2 else none
  slots n := if n ∈ v.inodes ∧ (v.din n).type = .dir then (v.din n).slots else 0
  parent n := if n ∈ v.inodes ∧ (v.din n).type = .dir then (v.din n).parent else 0
  removed n := v.removed n

lemma Sound.mem (h : v.Sound) (hcache : v.cache n = some node) : n ∈ v.inodes := (h.cached n node hcache).1

lemma sin_of_cache (h : v.cache n = some node) : v.sin n = node.sin := by rw [sin, h]

lemma din_of_cache (h : v.cache n = some node) : v.din n = node.sin.din := by rw [din, sin_of_cache h]

lemma din_of_none (h : v.cache n = none) : v.din n = .ofBlock (v.fs.disk n) := by rw [din, sin, h]

lemma place_inode (h : n ∈ v.inodes) : v.place (n, none) = n := if_pos h

lemma place_pos (h : n ∈ v.inodes) (p : Pos) : v.place (n, some p) = ptrs v.fs (v.din n) p := if_pos h

namespace Sound

variable (h : v.Sound) (hn : n ∈ v.inodes)
include h hn

lemma ne_zero : n ≠ 0 := by
  rintro rfl
  exact h.zero hn

/-- The block of an inode is in use. -/
lemma used : v.fs.Used n := by
  have hused := h.owns.used (n, none)
  rw [place_inode hn] at hused
  exact hused (h.ne_zero hn)

/-- The block of an inode is not in a block map. -/
lemma ptrs_ne_inode (hm : m ∈ v.inodes) (p : Pos) : ptrs v.fs (v.din n) p ≠ m := by
  intro heq
  have hinj := h.owns.inj (m, none) (n, some p)
  rw [place_inode hm, place_pos hn] at hinj
  cases hinj (h.ne_zero hm) heq.symm

lemma held : Held v.fs (v.din n) := by
  refine ⟨fun p hp => ?_, fun p q hp heq => ?_⟩
  · have hused := h.owns.used (n, some p)
    rw [place_pos hn] at hused
    exact hused hp
  · have hinj := h.owns.inj (n, some p) (n, some q)
    grind [place_pos]

/-- The block map of an inode is complete. -/
lemma mapped : Mapped v.fs (v.sin n) :=
  ⟨h.ok, h.held hn, (h.shaped n hn).mapped⟩

lemma fileOk (htype : (v.din n).type ≠ .dir) : FileOk v.fs (v.sin n) :=
  ⟨h.mapped hn, htype, (h.shaped n hn).size ((h.shaped n hn).type.resolve_left htype)⟩

end Sound

/-! ### One inode changes -/

/-- What the inodes other than `n` own stays as it is. -/
structure Frame (v : Vol) (n : ℕ) (v' : Vol) : Prop where
  ok : FsOk v'.fs
  inodes : ∀ m, m ≠ n → (m ∈ v'.inodes ↔ m ∈ v.inodes)
  cache : ∀ m, m ≠ n → v'.cache m = v.cache m
  keep : ∀ x : ℕ × Option Pos, x.1 ≠ n → v.place x ≠ 0 →
    v'.fs.Used (v.place x) ∧ v'.fs.disk (v.place x) = v.fs.disk (v.place x)

/-- The inode `n` is in order, and apart from the others. -/
structure Sits (v : Vol) (n : ℕ) (v' : Vol) : Prop where
  used : v'.fs.Used n
  held : Held v'.fs (v'.din n)
  self : ∀ p, ptrs v'.fs (v'.din n) p ≠ n
  apart : ∀ x : ℕ × Option Pos, x.1 ≠ n → v.place x ≠ 0 →
    n ≠ v.place x ∧ ∀ p, ptrs v'.fs (v'.din n) p ≠ v.place x
  shaped : Shaped v'.fs (v'.din n)
  node : ∀ node, v'.cache n = some node → 0 < node.ref ∧ node.reclaimCount = 1
  backed : ∀ node, v'.cache n = some node → node.sin.dirty = false → node.sin.din.nlinks ≠ 0 →
    Backed (.ofBlock (v'.fs.disk n)) node.sin.din
  linked : v'.cache n = none → (v'.din n).nlinks ≠ 0

namespace Frame

section

variable (h : v.Sound) (hframe : v.Frame n v') (hm : m ∈ v.inodes)
include h hframe hm

variable (hmn : m ≠ n)
include hmn

/-- The inodes on disk stay as they are. -/
lemma inode : v'.fs.Used m ∧ v'.fs.disk m = v.fs.disk m := by
  have hkeep := hframe.keep (m, none) hmn
  rw [place_inode hm] at hkeep
  exact hkeep (h.ne_zero hm)

lemma sin_eq : v'.sin m = v.sin m := by
  rw [sin, sin, hframe.cache m hmn, (hframe.inode h hm hmn).2]

lemma din_eq : v'.din m = v.din m := by rw [din, hframe.sin_eq h hm hmn, din]

end

lemma ptr (hframe : v.Frame n v') (hm : m ∈ v.inodes) (hmn : m ≠ n) (p : Pos) (hp : ptrs v.fs (v.din m) p ≠ 0) :
    v'.fs.disk (ptrs v.fs (v.din m) p) = v.fs.disk (ptrs v.fs (v.din m) p) := by
  have hkeep := hframe.keep (m, some p) hmn
  rw [place_pos hm] at hkeep
  exact (hkeep hp).2

variable (h : v.Sound) (hframe : v.Frame n v')
include h hframe

lemma ptrs_eq (hm : m ∈ v.inodes) (hmn : m ≠ n) : ptrs v'.fs (v'.din m) = ptrs v.fs (v.din m) := by
  rw [hframe.din_eq h hm hmn]
  exact ptrs_frame (hframe.ptr hm hmn)

lemma entries_eq (hm : m ∈ v.inodes) (hmn : m ≠ n) : entries v'.fs (v'.din m) = entries v.fs (v.din m) := by
  rw [hframe.din_eq h hm hmn]
  exact entries_congr (content_frame (hframe.ptr hm hmn)) rfl

lemma place_eq {x : ℕ × Option Pos} (hx : x.1 ≠ n) : v'.place x = v.place x := by
  have hiff := hframe.inodes x.1 hx
  by_cases hm : x.1 ∈ v.inodes
  · rw [place, place, if_pos hm, if_pos (hiff.mpr hm)]
    cases x.2 with
    | none => rfl
    | some p => exact congrFun (hframe.ptrs_eq h hm hx) p
  · grind [place]

/-- A volume stays in order when one inode changes, if that inode is in order afterwards. -/
lemma sound (hsits : n ∈ v'.inodes → v.Sits n v') (hgone : n ∉ v'.inodes → v'.cache n = none) : v'.Sound := by
  have hothers : ∀ m ∈ v'.inodes, m ≠ n → m ∈ v.inodes := fun m hm hmn => (hframe.inodes m hmn).mp hm
  -- the block at a place of `n` is not at a place of another inode
  have hapart : ∀ x y, x.1 = n → y.1 ≠ n → v'.place x ≠ 0 →
      v'.place x ≠ v'.place y := by
    rintro ⟨m, pos⟩ y hm hy hx heq
    obtain rfl := hm
    have hn : m ∈ v'.inodes := by
      by_contra hn
      exact hx (if_neg hn)
    rw [hframe.place_eq h hy] at heq
    have hne : v.place y ≠ 0 := heq ▸ hx
    obtain ⟨hinode, hptr⟩ := (hsits hn).apart y hy hne
    cases pos with
    | none =>
      rw [place_inode hn] at heq
      exact hinode heq
    | some p =>
      rw [place_pos hn] at heq
      exact hptr p heq
  refine ⟨hframe.ok, fun h0 => ?_, ⟨fun x hx => ?_, fun x y hx heq => ?_⟩, fun m hm => ?_,
    fun m node hm => ?_, fun m node hm hclean hlinks => ?_, fun m hm hnone => ?_⟩
  · by_cases hn : 0 = n
    · exact (hsits (hn ▸ h0)).used.1 hn.symm
    · exact h.zero (hothers 0 h0 hn)
  · by_cases hxn : x.1 = n
    · obtain ⟨m, pos⟩ := x
      obtain rfl := hxn
      have hn : m ∈ v'.inodes := by
        by_contra hn
        exact hx (if_neg hn)
      cases pos with
      | none =>
        rw [place_inode hn]
        exact (hsits hn).used
      | some p =>
        rw [place_pos hn] at hx ⊢
        exact (hsits hn).held.used p hx
    · rw [hframe.place_eq h hxn] at hx ⊢
      exact (hframe.keep x hxn hx).1
  · by_cases hxn : x.1 = n
    · by_cases hyn : y.1 = n
      · obtain ⟨m, pos⟩ := x
        obtain ⟨m', pos'⟩ := y
        obtain rfl := hxn
        obtain rfl := hyn
        have hn : m' ∈ v'.inodes := by
          by_contra hn
          exact hx (if_neg hn)
        have hs := hsits hn
        cases pos with
        | none =>
          cases pos' with
          | none => rfl
          | some q =>
            rw [place_inode hn, place_pos hn] at heq
            exact absurd heq.symm (hs.self q)
        | some p =>
          cases pos' with
          | none =>
            rw [place_inode hn, place_pos hn] at heq
            exact absurd heq (hs.self p)
          | some q =>
            rw [place_pos hn] at hx heq
            rw [place_pos hn] at heq
            rw [hs.held.inj p q hx heq]
      · exact absurd heq (hapart x y hxn hyn hx)
    · by_cases hyn : y.1 = n
      · exact absurd heq.symm (hapart y x hyn hxn (heq ▸ hx))
      · rw [hframe.place_eq h hxn] at heq hx
        rw [hframe.place_eq h hyn] at heq
        exact h.owns.inj x y hx heq
  · obtain rfl | hmn := eq_or_ne m n
    · exact (hsits hm).shaped
    · have hm := hothers m hm hmn
      have hshaped := h.shaped m hm
      rw [← hframe.din_eq h hm hmn] at hshaped
      refine ⟨fun i hi => ?_, hshaped.fits, hshaped.type, hshaped.size⟩
      rw [hframe.din_eq h hm hmn] at hi
      obtain ⟨p, hp, hne⟩ := (h.shaped m hm).mapped i hi
      refine ⟨p, hp, ?_⟩
      rw [hframe.ptrs_eq h hm hmn]
      exact hne
  · obtain rfl | hmn := eq_or_ne m n
    · have hn : m ∈ v'.inodes := by
        by_contra hn
        rw [hgone hn] at hm
        cases hm
      exact ⟨hn, (hsits hn).node node hm⟩
    · rw [hframe.cache m hmn] at hm
      obtain ⟨hmem, hcount⟩ := h.cached m node hm
      exact ⟨(hframe.inodes m hmn).mpr hmem, hcount⟩
  · obtain rfl | hmn := eq_or_ne m n
    · have hn : m ∈ v'.inodes := by
        by_contra hn
        rw [hgone hn] at hm
        cases hm
      exact (hsits hn).backed node hm hclean hlinks
    · rw [hframe.cache m hmn] at hm
      rw [(hframe.inode h (h.mem hm) hmn).2]
      exact h.backed m node hm hclean hlinks
  · obtain rfl | hmn := eq_or_ne m n
    · exact (hsits hm).linked hnone
    · have hm := hothers m hm hmn
      rw [hframe.cache m hmn] at hnone
      rw [hframe.din_eq h hm hmn]
      exact h.linked m hm hnone

/-- The names in other directories stay the same, and so does what is known about other inodes. -/
lemma tree_eq : v'.tree = v.tree.setRecord n (v'.tree.record n) := by
  have hmem : ∀ m, m ≠ n → (m ∈ v'.inodes ↔ m ∈ v.inodes) := hframe.inodes
  refine Tree.eq_setRecord (fun m hm => ?_) rfl
  by_cases hin : m ∈ v.inodes
  · have hdin := hframe.din_eq h hin hm
    have hentries := hframe.entries_eq h hin hm
    rw [hdin] at hentries
    simp [Tree.record, tree, hin, (hmem m hm).mpr hin, hdin, hentries, removed, hframe.cache m hm]
  · simp [Tree.record, tree, hin, mt (hmem m hm).mp hin, removed, hframe.cache m hm]

end Frame

end Vol

end UcoreKernel.Sfs
