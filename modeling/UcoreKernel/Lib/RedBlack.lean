import Mathlib.Tactic

/-!
Red-black trees, and trees with a hole.

The rules are stated for a tree and for the context of a subtree, so that an algorithm that
walks up from a node and repairs the tree on its way has an invariant at every step. Left and
right are values (`Side`), and a node is written with its children in either order (`node' d`),
so that a rule and its mirror image are one rule.

* `Rb t n`: no red node of `t` has a red child, and every path has `n` black nodes;
* `CtxOk ctx red n`: the hole of `ctx` takes a tree with a root of colour `red` and black
  height `n`;
* `rb_plug`: the tree is red-black when the context and the subtree are, `exists_ctxOk` the
  converse.
-/

namespace UcoreKernel.RedBlack

open List

/-- A side of a node. -/
inductive Side where
  | left
  | right
  deriving DecidableEq, Repr

/-- The other side. -/
def Side.flip : Side → Side
  | .left => .right
  | .right => .left

@[simp] lemma Side.flip_flip (d : Side) : d.flip.flip = d := by cases d <;> rfl

lemma Side.flip_ne (d : Side) : d.flip ≠ d := by cases d <;> decide

/-- A coloured binary tree. -/
inductive ColTree (α : Type) where
  | leaf
  | node (red : Bool) (l : ColTree α) (a : α) (r : ColTree α)
  deriving DecidableEq, Repr

variable {α : Type}

namespace ColTree

/-- The node with child `s` on side `d` and child `o` on the other. -/
def node' (d : Side) (red : Bool) (s : ColTree α) (a : α) (o : ColTree α) : ColTree α :=
  match d with
  | .left => node red s a o
  | .right => node red o a s

/-- The in-order walk. -/
def toList : ColTree α → List α
  | leaf => []
  | node _ l a r => l.toList ++ a :: r.toList

/-- The colour of the root; a leaf is black. -/
def isRed : ColTree α → Bool
  | leaf => false
  | node red _ _ _ => red

/-- The tree with its root coloured. -/
def paint (red : Bool) : ColTree α → ColTree α
  | leaf => leaf
  | node _ l a r => node red l a r

/-- The black nodes a root adds to its paths. -/
def blacks (red : Bool) : ℕ := if red then 0 else 1

@[simp] lemma blacks_true : blacks true = 0 := rfl

@[simp] lemma blacks_false : blacks false = 1 := rfl

/-- No red node has a red child, and every path from the root has `n` black nodes. -/
def Rb : ColTree α → ℕ → Prop
  | leaf, n => n = 0
  | node red l _ r, n =>
    (red = true → l.isRed = false ∧ r.isRed = false) ∧
      ∃ m, Rb l m ∧ Rb r m ∧ n = m + blacks red

/-- A red-black tree, with a black root. -/
abbrev Proper (t : ColTree α) : Prop := t.isRed = false ∧ ∃ m, Rb t m

variable {d : Side} {red : Bool} {s o t : ColTree α} {a : α} {n : ℕ}

/-- A tree with `n` black nodes on each path has `2 ^ n - 1` nodes at least. -/
lemma two_pow_le_of_rb (h : Rb t n) : 2 ^ n ≤ t.toList.length + 1 := by
  induction t generalizing n with
  | leaf =>
    obtain rfl : n = 0 := h
    exact le_rfl
  | node red l a r ihl ihr =>
    obtain ⟨-, m, hl, hr, rfl⟩ := h
    have hleft := ihl hl
    have hright := ihr hr
    rw [toList, length_append, length_cons]
    cases red with
    | false =>
      rw [blacks_false, pow_succ]
      omega
    | true =>
      rw [blacks_true, add_zero]
      omega

lemma node'_flip : node' d.flip red o a s = node' d red s a o := by cases d <;> rfl

@[simp] lemma isRed_node' : (node' d red s a o).isRed = red := by cases d <;> rfl

@[simp] lemma paint_node' (c : Bool) : (node' d red s a o).paint c = node' d c s a o := by
  cases d <;> rfl

@[simp] lemma toList_paint (c : Bool) (t : ColTree α) : (t.paint c).toList = t.toList := by
  cases t <;> rfl

/-- A rotation keeps the walk. -/
lemma toList_rotate {b : ColTree α} {c : Bool} {y : α} :
    (node' d c (node' d red s a b) y o).toList = (node' d red s a (node' d c b y o)).toList := by
  cases d <;> simp [node', toList]

lemma isRed_paint_false (t : ColTree α) : (t.paint false).isRed = false := by
  cases t <;> rfl

lemma paint_of_isRed {c : Bool} (h : t.isRed = c) : t.paint c = t := by
  cases t with
  | leaf => rfl
  | node => exact h ▸ rfl

lemma node'_ne_leaf : node' d red s a o ≠ leaf := by
  cases d <;> simp [node']

/-- A tree that is not a leaf, with its children seen from side `d`. -/
lemma exists_node' (d : Side) (h : t ≠ leaf) : ∃ red s a o, t = node' d red s a o := by
  cases t with
  | leaf => exact absurd rfl h
  | node red l a r =>
    cases d with
    | left => exact ⟨red, l, a, r, rfl⟩
    | right => exact ⟨red, r, a, l, rfl⟩

lemma exists_node'_of_isRed (d : Side) (h : t.isRed = true) : ∃ s a o, t = node' d true s a o := by
  cases t with
  | leaf => cases h
  | node red l a r =>
    obtain rfl := h
    cases d with
    | left => exact ⟨l, a, r, rfl⟩
    | right => exact ⟨r, a, l, rfl⟩

lemma rb_node' : Rb (node' d red s a o) n ↔ (red = true → s.isRed = false ∧ o.isRed = false) ∧
      ∃ m, Rb s m ∧ Rb o m ∧ n = m + blacks red := by
  cases d with
  | left => rfl
  | right =>
    refine and_congr (imp_congr_right fun _ => and_comm) (exists_congr fun m => ?_)
    rw [← and_assoc, ← and_assoc, and_comm (a := Rb o m)]

/-- A red root may be painted black: the paths get one more black node. -/
lemma Rb.paint_false (h : Rb t n) (hred : t.isRed = true) : Rb (t.paint false) (n + 1) := by
  cases t with
  | leaf => cases hred
  | node red l a r =>
    obtain rfl := hred
    obtain ⟨-, m, hl, hr, hn⟩ := h
    refine ⟨fun hf => ?_, m, hl, hr, ?_⟩
    · cases hf
    · rw [hn, blacks_true, blacks_false]

/-- A tree with a black node on its paths is no leaf. -/
lemma Rb.ne_leaf (h : Rb t (n + 1)) : t ≠ leaf := by
  rintro rfl
  exact absurd h (Nat.succ_ne_zero n)

end ColTree

open ColTree

/-- A node on the way up from the hole: the side of the hole, the colour, the element and the
other child. -/
structure Frame (α : Type) where
  side : Side
  red : Bool
  a : α
  other : ColTree α

/-- The nodes above the hole, from the nearest on. -/
abbrev Ctx (α : Type) := List (Frame α)

/-- The node of a frame with the hole filled. -/
def Frame.fill (f : Frame α) (t : ColTree α) : ColTree α := node' f.side f.red t f.a f.other

/-- The whole tree. -/
def plug : Ctx α → ColTree α → ColTree α
  | [], t => t
  | f :: ctx, t => plug ctx (f.fill t)

/-- The elements before the hole in the in-order walk. -/
def before : Ctx α → List α
  | [] => []
  | ⟨.left, _, _, _⟩ :: ctx => before ctx
  | ⟨.right, _, a, o⟩ :: ctx => before ctx ++ (o.toList ++ [a])

/-- The elements after the hole. -/
def after : Ctx α → List α
  | [] => []
  | ⟨.left, _, a, o⟩ :: ctx => (a :: o.toList) ++ after ctx
  | ⟨.right, _, _, _⟩ :: ctx => after ctx

variable {ctx : Ctx α} {t : ColTree α} {n : ℕ}

lemma toList_plug (ctx : Ctx α) (t : ColTree α) :
    (plug ctx t).toList = before ctx ++ (t.toList ++ after ctx) := by
  induction ctx generalizing t with
  | nil => simp [plug, before, after]
  | cons f ctx ih =>
    obtain ⟨side, red, a, o⟩ := f
    rw [plug, ih]
    cases side with
    | left | right => simp [Frame.fill, node', ColTree.toList, before, after]

/-- Nothing comes before a hole on the left of all nodes above it. -/
lemma before_eq_nil (h : ∀ f ∈ ctx, f.side = .left) : before ctx = [] := by
  induction ctx with
  | nil => rfl
  | cons f ctx ih =>
    obtain ⟨side, red, a, o⟩ := f
    obtain rfl := h _ (.head _)
    exact ih fun g hg => h g (.tail _ hg)

/-- Nothing comes after a hole on the right of all nodes above it. -/
lemma after_eq_nil (h : ∀ f ∈ ctx, f.side = .right) : after ctx = [] := by
  induction ctx with
  | nil => rfl
  | cons f ctx ih =>
    obtain ⟨side, red, a, o⟩ := f
    obtain rfl := h _ (.head _)
    exact ih fun g hg => h g (.tail _ hg)

/-- Subtrees with the same walk make trees with the same walk. -/
lemma toList_plug_congr {t t' : ColTree α} (ctx : Ctx α) (h : t.toList = t'.toList) :
    (plug ctx t).toList = (plug ctx t').toList := by
  rw [toList_plug, toList_plug, h]

lemma plug_append (path ctx : Ctx α) (t : ColTree α) : plug (path ++ ctx) t = plug ctx (plug path t) := by
  induction path generalizing t with
  | nil => rfl
  | cons f path ih => exact ih (f.fill t)

/-- Every element of a tree is at the root of a subtree. -/
lemma exists_focus {x : α} (hx : x ∈ t.toList) : ∃ ctx red l r, t = plug ctx (.node red l x r) := by
  induction t with
  | leaf => cases hx
  | node red l a r ihl ihr =>
    rw [ColTree.toList, mem_append, mem_cons] at hx
    obtain hx | rfl | hx := hx
    · obtain ⟨ctx, red', l', r', rfl⟩ := ihl hx
      refine ⟨ctx ++ [⟨.left, red, a, r⟩], red', l', r', ?_⟩
      rw [plug_append]
      rfl
    · exact ⟨[], red, l, r, rfl⟩
    · obtain ⟨ctx, red', l', r', rfl⟩ := ihr hx
      refine ⟨ctx ++ [⟨.right, red, a, l⟩], red', l', r', ?_⟩
      rw [plug_append]
      rfl

/-- Every frame holds an element of the tree. -/
lemma length_ctx_le (ctx : Ctx α) (t : ColTree α) :
    ctx.length + t.toList.length ≤ (plug ctx t).toList.length := by
  induction ctx generalizing t with
  | nil => exact (zero_add _).le
  | cons f ctx ih =>
    have hfill : t.toList.length < (f.fill t).toList.length := by
      obtain ⟨side, red, a, o⟩ := f
      cases side with
      | left => simp [Frame.fill, node', ColTree.toList]
      | right => grind [Frame.fill, node', ColTree.toList]
    grind [plug]

/-- The hole takes a tree with a root of colour `red` and black height `n`, and the root of the
whole tree is black. -/
def CtxOk : Ctx α → Bool → ℕ → Prop
  | [], red, _ => red = false
  | f :: ctx, red, n =>
    (f.red = true → red = false ∧ f.other.isRed = false) ∧ Rb f.other n ∧
      CtxOk ctx f.red (n + blacks f.red)

/-- A hole takes a black root wherever it takes a red one. -/
lemma CtxOk.black {red : Bool} (h : CtxOk ctx red n) : CtxOk ctx false n := by
  cases ctx with
  | nil => rfl
  | cons f ctx => exact ⟨fun hf => ⟨rfl, (h.1 hf).2⟩, h.2⟩

/-- The rules do not look at the elements. -/
lemma CtxOk.rename {path ctx : Ctx α} {d : Side} {c red : Bool} {a a' : α} {o : ColTree α}
    (h : CtxOk (path ++ ⟨d, c, a, o⟩ :: ctx) red n) : CtxOk (path ++ ⟨d, c, a', o⟩ :: ctx) red n := by
  induction path generalizing red n with
  | nil => exact h
  | cons f path ih => exact ⟨h.1, h.2.1, ih h.2.2⟩

/-- A red-black subtree in a hole that takes it. -/
lemma rb_plug (hctx : CtxOk ctx t.isRed n) (ht : Rb t n) : (plug ctx t).Proper := by
  induction ctx generalizing t n with
  | nil => exact ⟨hctx, n, ht⟩
  | cons f ctx ih =>
    obtain ⟨hred, hother, hrest⟩ := hctx
    refine ih (n := n + blacks f.red) ?_ ?_
    · rw [Frame.fill, isRed_node']
      exact hrest
    · grind [Frame.fill, rb_node']

/-- Every hole of a red-black tree with a black root. -/
lemma exists_ctxOk {m : ℕ} (hroot : (plug ctx t).isRed = false)
    (h : Rb (plug ctx t) m) : ∃ n, CtxOk ctx t.isRed n ∧ Rb t n := by
  induction ctx generalizing t with
  | nil => exact ⟨m, hroot, h⟩
  | cons f ctx ih =>
    obtain ⟨n, hctx, ht⟩ := ih hroot h
    rw [Frame.fill, isRed_node'] at hctx
    rw [Frame.fill, rb_node'] at ht
    obtain ⟨hred, k, ht, hother, rfl⟩ := ht
    exact ⟨k, ⟨hred, hother, hctx⟩, ht⟩

/-! ### After an insertion

The hole holds a red tree that would be fine if it were black. Its parent `f` is red too, so
the parent of that, `g`, is black. `g.side` is the side of `f`. -/

section Insert

variable {f g : Frame α}

variable (h : CtxOk (f :: g :: ctx) false n) (hf : f.red = true)
include h hf

/-- The parent of a red node is black, and its other child has the same black height. -/
lemma CtxOk.grandparent : f.other.isRed = false ∧ Rb f.other n ∧ g.red = false ∧ Rb g.other n ∧
      CtxOk ctx false (n + 1) := by
  obtain ⟨hred, hother, hg, hother', hrest⟩ := h
  grind [blacks_true, blacks_false]

/-- The uncle is red: parent and uncle become black and the grandparent red. -/
lemma rb_insert_recolor (ht : Rb t n) (huncle : g.other.isRed = true) :
    Rb (node' g.side true (node' f.side false t f.a f.other) g.a (g.other.paint false)) (n + 1) ∧
      CtxOk ctx false (n + 1) := by
  obtain ⟨-, hother, -, hother', hrest⟩ := h.grandparent hf
  refine ⟨?_, hrest⟩
  rw [rb_node']
  refine ⟨fun _ => ⟨isRed_node', isRed_paint_false _⟩, n + 1, ?_, hother'.paint_false huncle, rfl⟩
  rw [rb_node']
  exact ⟨nofun, n, ht, hother, rfl⟩

/-- The uncle is black and the hole on the outer side: one rotation. -/
lemma rb_insert_outer (ht : Rb t n) (huncle : g.other.isRed = false) :
    Rb (node' g.side false t f.a (node' g.side true f.other g.a g.other)) (n + 1) ∧
      CtxOk ctx false (n + 1) := by
  obtain ⟨hblack, hother, -, hother', hrest⟩ := h.grandparent hf
  refine ⟨?_, hrest⟩
  rw [rb_node']
  refine ⟨nofun, n, ht, ?_, rfl⟩
  rw [rb_node']
  exact ⟨fun _ => ⟨hblack, huncle⟩, n, hother, hother', rfl⟩

/-- The uncle is black and the hole on the inner side: two rotations. -/
lemma rb_insert_inner {b c : ColTree α} {x : α} (ht : Rb (node' g.side true b x c) n) (huncle : g.other.isRed = false) :
    Rb (node' g.side false (node' g.side true f.other f.a b) x
      (node' g.side true c g.a g.other)) (n + 1) ∧ CtxOk ctx false (n + 1) := by
  obtain ⟨hblack, hother, -, hother', hrest⟩ := h.grandparent hf
  obtain ⟨hbc, m, hb, hc, hm⟩ := rb_node'.mp ht
  obtain rfl : n = m := by simpa using hm
  obtain ⟨hbb, hcb⟩ := hbc rfl
  refine ⟨?_, hrest⟩
  rw [rb_node']
  refine ⟨nofun, n, ?_, ?_, rfl⟩
  · grind [rb_node']
  · grind [rb_node']

end Insert

/-! ### After a deletion

The hole wants one black node more than the tree `t` in it has; `f` is the parent, and
`f.other` the sibling. -/

/-- The hole lacks a black node, which a red root would supply. -/
def Lacking (ctx : Ctx α) (t : ColTree α) (n : ℕ) : Prop :=
  CtxOk ctx false (n + 1) ∧ if t.isRed then Rb (t.paint false) (n + 1) else Rb t n

section Delete

variable {f : Frame α} {b c : ColTree α} {w : α}

/-- A red root supplies the black node. -/
lemma Lacking.of_red (h : Lacking ctx t n) (hred : t.isRed = true) : (plug ctx (t.paint false)).Proper := by
  have ht := h.2
  rw [if_pos hred] at ht
  refine rb_plug ?_ ht
  rw [isRed_paint_false]
  exact h.1

/-- The root of the whole tree needs no black node. -/
lemma Lacking.of_root (h : Lacking [] t n) : (t.paint false).Proper := by
  refine ⟨isRed_paint_false t, ?_⟩
  have ht := h.2
  by_cases hred : t.isRed = true
  · rw [if_pos hred] at ht
    exact ⟨n + 1, ht⟩
  · grind [paint_of_isRed]

variable (h : Lacking (f :: ctx) t n)
include h

/-- The sibling is a node. -/
lemma Lacking.other_ne_leaf : f.other ≠ .leaf :=
  h.1.2.1.ne_leaf

/-- A red sibling: after a rotation the sibling is black and the parent red. -/
lemma lacking_delete_red (hw : f.other = node' f.side true b w c) : f.red = false ∧ b.isRed = false ∧
      Lacking (⟨f.side, true, f.a, b⟩ :: ⟨f.side, false, w, c⟩ :: ctx) t n := by
  obtain ⟨⟨hred, hother, hrest⟩, hsub⟩ := h
  have hfb : f.red = false := by grind [isRed_node']
  rw [hfb, blacks_false] at hrest
  rw [hw] at hother
  obtain ⟨hbc, m, hb, hc, hm⟩ := rb_node'.mp hother
  obtain ⟨hbb, -⟩ := hbc rfl
  subst hm
  exact ⟨hfb, hbb, ⟨fun _ => ⟨rfl, hbb⟩, hb, nofun, hc, hrest⟩, hsub⟩

section

variable (ht : t.isRed = false) (hw : f.other = node' f.side false b w c)
include ht hw

/-- The children of a black sibling lack nothing. -/
lemma Lacking.black_sibling : Rb t n ∧ Rb b n ∧ Rb c n := by
  obtain ⟨⟨-, hother, -⟩, hsub⟩ := h
  rw [if_neg (by simp [ht])] at hsub
  rw [hw] at hother
  obtain ⟨-, m, hbm, hcm, hm⟩ := rb_node'.mp hother
  obtain rfl : n = m := by simpa using hm
  exact ⟨hsub, hbm, hcm⟩

/-- A black sibling with black children becomes red, and the parent lacks a black node. -/
lemma lacking_delete_recolor (hb : b.isRed = false) (hc : c.isRed = false) :
    Lacking ctx (node' f.side f.red t f.a (node' f.side true b w c)) (n + blacks f.red) := by
  obtain ⟨hsub, hbm, hcm⟩ := h.black_sibling ht hw
  have hrest := h.1.2.2
  have hsib : Rb (node' f.side true b w c) n := rb_node'.mpr ⟨fun _ => ⟨hb, hc⟩, n, hbm, hcm, rfl⟩
  refine ⟨by rw [add_right_comm]; exact hrest.black, ?_⟩
  rw [isRed_node']
  cases hf : f.red with
  | true =>
    rw [if_pos rfl, paint_node', rb_node']
    exact ⟨nofun, n, hsub, hsib, rfl⟩
  | false => grind [rb_node']

/-- A black sibling with a red outer child: one rotation. -/
lemma rb_delete_outer (hc : c.isRed = true) :
    (plug ctx (node' f.side f.red (node' f.side false t f.a b) w (c.paint false))).Proper := by
  obtain ⟨hsub, hbm, hcm⟩ := h.black_sibling ht hw
  refine rb_plug (n := n + 1 + blacks f.red) ?_ ?_
  · rw [isRed_node']
    exact h.1.2.2
  · rw [rb_node']
    refine ⟨fun _ => ⟨isRed_node', isRed_paint_false c⟩, n + 1, ?_, hcm.paint_false hc, rfl⟩
    grind [rb_node', blacks_false]

end

/-- A black sibling with a red inner child: two rotations. -/
lemma rb_delete_inner {x : α} {b₁ b₂ : ColTree α} (ht : t.isRed = false)
    (hw : f.other = node' f.side false (node' f.side true b₁ x b₂) w c) :
    (plug ctx (node' f.side f.red (node' f.side false t f.a b₁) x (node' f.side false b₂ w c))).Proper := by
  obtain ⟨hsub, hbm, hcm⟩ := h.black_sibling ht hw
  obtain ⟨-, m, hb1, hb2, hm⟩ := rb_node'.mp hbm
  obtain rfl : n = m := by simpa using hm
  refine rb_plug (n := n + 1 + blacks f.red) ?_ ?_
  · rw [isRed_node']
    exact h.1.2.2
  · grind [rb_node', isRed_node', blacks_false]

end Delete

end UcoreKernel.RedBlack
