import UcoreKernel.Libs.RbTreeInsert

/-!
`rb_delete` keeps the red-black rules and takes one node out of the walk.

A missing subtree can be the one that lacks a black node, and then the repair finds its parent
in the sentinel `nil`; `Focus` is `Shape` with that parent. The repair compares with the node
that was topmost when it started, which a rotation may since have moved down; `FixupDone` says
what must hold when the loop ends there.
-/

namespace UcoreKernel.Rb

open RedBlack RedBlack.ColTree Function List ColTree Frame

variable {T : RbTree} {h h' : Heap} {ctx : Ctx ℕ} {t b c s o l r : ColTree ℕ} {f g : Frame ℕ}
  {n top w x y z : ℕ} {d : Side} {red : Bool}

/-- The focus with its parent, also if it is a leaf. -/
structure Focus (T : RbTree) (h : Heap) (ctx : Ctx ℕ) (t : ColTree ℕ) : Prop where
  shape : Shape T h ctx t
  parent : (h (ptr T t)).parent = above T ctx

lemma Shape.focus (hs : Shape T h ctx t) (ht : t ≠ .leaf) : Focus T h ctx t :=
  ⟨hs, hs.parent_eq ht⟩

/-- Steps that do not touch the parent in the sentinel. -/
lemma Focus.of_shape {ctx' : Ctx ℕ} (hf : Focus T h ctx t) (hs : Shape T h' ctx' t)
    (habove : above T ctx' = above T ctx)
    (hnil : (h' T.nil).parent = (h T.nil).parent) : Focus T h' ctx' t := by
  refine ⟨hs, ?_⟩
  obtain rfl | ht := eq_or_ne t .leaf
  · exact (hnil.trans hf.parent).trans habove.symm
  · exact hs.parent_eq ht

/-! ### Repair -/

/-- The sibling of the focus. -/
lemma Shape.sibling (hs : Shape T h (f :: ctx) t) : Shape T h (⟨f.side.flip, f.red, f.a, t⟩ :: ctx) f.other :=
  shape_child'.mp ((shape_fill f).mpr hs)

section

variable (hf : Focus T h (f :: ctx) t)
include hf

/-- A red sibling is rotated away. -/
lemma rbDeleteRed_spec (hw : f.other = node' f.side true b w c) :
    ∃ h', rbDeleteRed T f.side h (ptr T t) w = some (h', ptr T b) ∧
      Focus T h' (⟨f.side, true, f.a, b⟩ :: ⟨f.side, false, w, c⟩ :: ctx) t := by
  have hwred : (h w).red = true := by
    have := hf.shape.sibling.red_eq
    rwa [hw, ptr_node', isRed_node'] at this
  have hs1 := hf.shape.sibling.paint false (.inr rfl)
  rw [hw, ptr_node', paint_node'] at hs1
  have hs2 := (shape_child'.mpr hs1).paint true (.inl node'_ne_leaf)
  rw [ptr_node', paint_node'] at hs2
  obtain ⟨h', hrun, hs3, hsame⟩ := rbRotate_spec hs2
  have hs4 := shape_child.mp (shape_child.mp hs3)
  have hf4 := hf.of_shape hs4 rfl (by rw [hsame, setRed_parent, setRed_parent])
  refine ⟨h', ?_, hf4⟩
  have hpar : (h (ptr T t)).parent = f.a := hf.parent
  have hpar' : (h' (ptr T t)).parent = f.a := hf4.parent
  have hchild : (h' f.a).child f.side.flip = ptr T b := hs4.ctxRep.1.child'
  grind [rbDeleteRed, setRed_parent]

/-- The inner child of the sibling is rotated to its place. -/
lemma rbDeleteInner_spec {b₁ b₂ : ColTree ℕ}
    (hw : f.other = node' f.side false (node' f.side true b₁ x b₂) w c) (hc : c.isRed = false) :
    ∃ h', rbDeleteInner T f.side h (ptr T t) w = some (h', x) ∧
      Focus T h' (⟨f.side, f.red, f.a, node' f.side false b₁ x (node' f.side true b₂ w c)⟩ :: ctx) t := by
  have hsib := hf.shape.sibling
  rw [hw] at hsib
  have hwn := (rep_node'.mp hsib.rep).1
  rw [ptr_node'] at hwn
  have hcred : (h (ptr T c)).red = false := by
    rw [(shape_child'.mp hsib).red_eq, hc]
  have hs1 := (shape_child.mp hsib).paint false (.inr rfl)
  rw [ptr_node', paint_node'] at hs1
  have hs2 := (shape_child.mpr hs1).paint true (.inl node'_ne_leaf)
  rw [ptr_node', paint_node', ← node'_flip, ← node'_flip (s := b₁)] at hs2
  obtain ⟨h', hrun, hs3, hsame⟩ := rbRotate_spec hs2
  rw [node'_flip, node'_flip] at hs3
  have hs4 := shape_child.mp (shape_child'.mpr hs3)
  have hf4 := hf.of_shape hs4 rfl (by rw [hsame, setRed_parent, setRed_parent])
  refine ⟨h', ?_, hf4⟩
  have hpar' : (h' (ptr T t)).parent = f.a := hf4.parent
  have hchild : (h' f.a).child f.side.flip = x := by
    have := hs4.ctxRep.1.child'
    rwa [ptr_node'] at this
  have hcred' : (h ((h w).child f.side.flip)).red = false := by rw [hwn.child', hcred]
  simp only [rbDeleteInner, if_pos hcred', hwn.child, hrun, Option.bind_eq_bind, Option.bind_some, hpar', hchild]
  rfl

/-- The sibling is rotated to the place of the parent, and the tree is in order. -/
lemma rbDeleteOuter_spec (hw : f.other = node' f.side red b w c) :
    ∃ h', rbDeleteOuter T f.side h (ptr T t) w = some h' ∧ Shape T h' ctx
        (node' f.side f.red (node' f.side false t f.a b) w (c.paint false)) := by
  have hsib := hf.shape.sibling
  rw [hw] at hsib
  have hwn := (rep_node'.mp hsib.rep).1
  have hpar : (h (ptr T t)).parent = f.a := hf.parent
  have hpred : (h f.a).red = f.red := hf.shape.ctxRep.1.red
  have hs1 := hsib.paint f.red (.inl node'_ne_leaf)
  rw [ptr_node', paint_node'] at hs1
  have hs2 := (shape_child'.mpr hs1).paint false (.inr rfl)
  rw [ptr_node', paint_node'] at hs2
  have hs3 := (shape_child'.mp (shape_child'.mp hs2)).paint false (.inr rfl)
  have hs4 := shape_child'.mpr (shape_child'.mpr hs3)
  obtain ⟨h', hrun, hs5, -⟩ := rbRotate_spec hs4
  refine ⟨h', ?_, hs5⟩
  simp only [rbDeleteOuter, setRed_parent, setRed_child, hpar, hpred, hwn.child', hrun]

end

lemma setRed_eq_self (hred : (h x).red = red) : setRed h x red = h := by
  rw [setRed, ← hred]
  exact update_eq_self x h

/-- The topmost node does not depend on the subtree in a hole below it. -/
lemma ptr_plug (ctx : Ctx ℕ) (t t' : ColTree ℕ) : ptr T (plug (f :: ctx) t) = ptr T (plug (f :: ctx) t') := by
  induction ctx generalizing f t t' with
  | nil => rw [plug, plug, plug, plug, fill, fill, ptr_node', ptr_node']
  | cons g ctx ih => exact ih (f.fill t) (f.fill t')

/-- The topmost node is in the context of every subtree below it. -/
lemma ptr_plug_mem (ctx : Ctx ℕ) (t : ColTree ℕ) : ptr T (plug (f :: ctx) t) ∈ ctxAddrs T (f :: ctx) := by
  induction ctx generalizing f t with
  | nil =>
    rw [plug, plug, fill, ptr_node']
    exact (.head _)
  | cons g ctx ih =>
    exact .tail _ (mem_append_right _ (ih (f.fill t)))

/-- The address of the subtree is none of the context. -/
lemma Shape.ptr_ne (hs : Shape T h ctx t) (hx : x ∈ ctxAddrs T ctx) : ptr T t ≠ x := by
  obtain rfl | ht := eq_or_ne t .leaf
  · exact fun hEq : T.nil = x => hs.nil_notMem_ctx (hEq ▸ hx)
  · exact hs.ne_of_mem (ptr_mem ht) hx

/-- The loop ends with `x`, and the assignment after it makes a red-black tree with the walk
`list`. -/
def FixupDone (T : RbTree) (top : ℕ) (h : Heap) (x : ℕ) (list : List ℕ) : Prop :=
  (x = top ∨ (h x).red = true) ∧ ∃ t, Shape T (setRed h x false) [] t ∧ t.toList = list ∧
    t.isRed = false ∧ ∃ m, Rb t m

section

variable (hf : Focus T h (f :: ctx) t)
include hf

/-- The last rotation. The node `top` is the topmost one or the parent, which is now black. -/
lemma rbDeleteOuter_done (hw : f.other = node' f.side red b w c)
    (hrb : (plug ctx (node' f.side f.red (node' f.side false t f.a b) w (c.paint false))).Proper)
    (htop : top = f.a ∨ ∀ t', ptr T (plug ctx t') = top) :
    ∃ h', rbDeleteOuter T f.side h (ptr T t) w = some h' ∧
      FixupDone T top h' top (plug (f :: ctx) t).toList := by
  obtain ⟨h', hrun, hs⟩ := rbDeleteOuter_spec hf hw
  have hroot := shape_plug.mpr hs
  have hblack : (h' top).red = false := by
    obtain rfl | htop := htop
    · have := (shape_child.mp hs).red_eq
      rwa [ptr_node', isRed_node'] at this
    · rw [← htop, hroot.red_eq]
      exact hrb.1
  refine ⟨h', hrun, .inl rfl, _, ?_, ?_, hrb⟩
  · rw [setRed_eq_self hblack]
    exact hroot
  · refine toList_plug_congr ctx ?_
    rw [fill, hw]
    cases f.side <;> simp [node', toList]

section

variable (ht : t.isRed = false) (hlack : Lacking (f :: ctx) t n)
include ht hlack

/-- A turn with a black sibling: the parent lacks a black node now, or the loop is done. -/
lemma rbDeleteBlack_spec (hblack : f.other.isRed = false) (htop : top = f.a ∨ ∀ t', ptr T (plug ctx t') = top) :
    ∃ h' x', rbDeleteBlack T f.side top h (ptr T t) (ptr T f.other) = some (h', x') ∧
      ((∃ t', x' = ptr T t' ∧ ptr T t' = f.a ∧ t' ≠ .leaf ∧ t'.isRed = f.red ∧ Shape T h' ctx t' ∧
          Lacking ctx t' (n + blacks f.red) ∧ (plug ctx t').toList = (plug (f :: ctx) t).toList) ∨
        FixupDone T top h' x' (plug (f :: ctx) t).toList) := by
  obtain ⟨red, b, w, c, hw⟩ := exists_node' f.side hlack.other_ne_leaf
  obtain rfl : red = false := by rwa [hw, isRed_node'] at hblack
  have hsib := hf.shape.sibling
  rw [hw] at hsib
  have hwn := (rep_node'.mp hsib.rep).1
  have hbred := (shape_child.mp hsib).red_eq
  have hcred := (shape_child'.mp hsib).red_eq
  rw [hw, ptr_node', rbDeleteBlack, hwn.child, hwn.child', hbred, hcred]
  split_ifs with hboth
  · have hs1 := hsib.paint true (.inl node'_ne_leaf)
    rw [ptr_node', paint_node'] at hs1
    have hs2 := shape_child'.mpr hs1
    have hpar : (h (ptr T t)).parent = f.a := hf.parent
    refine ⟨_, _, rfl, .inl ⟨_, ?_, ptr_node', node'_ne_leaf, isRed_node', hs2,
      lacking_delete_recolor hlack ht hw hboth.1 hboth.2, toList_plug_congr ctx ?_⟩⟩
    · rw [setRed_parent, hpar, ptr_node']
    · rw [fill, hw]
      cases f.side <;> simp [node', toList]
  · cases hc : c.isRed with
    | true =>
      obtain ⟨h', hrun, hdone⟩ :=
        rbDeleteOuter_done hf hw (rb_delete_outer hlack ht hw hc) htop
      have hinner : rbDeleteInner T f.side h (ptr T t) w = some (h, w) := by
        rw [rbDeleteInner, hwn.child', hcred, hc, if_neg (by simp)]
      grind
    | false =>
      have hb : b.isRed = true := by grind
      obtain ⟨b1, x, b2, rfl⟩ := exists_node'_of_isRed f.side hb
      obtain ⟨h1, hrun1, hf1⟩ := rbDeleteInner_spec hf hw hc
      have hrb := rb_delete_inner hlack ht hw
      obtain ⟨h', hrun, hdone⟩ :=
        rbDeleteOuter_done hf1 rfl (by rw [paint_node']; exact hrb) htop
      have hlist : (plug (⟨f.side, f.red, f.a,
          node' f.side false b1 x (node' f.side true b2 w c)⟩ :: ctx) t).toList =
          (plug (f :: ctx) t).toList := by
        refine toList_plug_congr ctx ?_
        rw [fill, fill, hw]
        cases f.side <;> simp [node', toList]
      grind

/-- One turn: the parent lacks a black node now, or the loop is done. -/
lemma rbDeleteFixupSub_spec (htop : top = ptr T (plug (f :: ctx) t)) :
    ∃ h' x', rbDeleteFixupSub T f.side top h (ptr T t) = some (h', x') ∧
      ((∃ t', x' = ptr T t' ∧ Focus T h' ctx t' ∧ Lacking ctx t' (n + blacks f.red) ∧
          (plug ctx t').toList = (plug (f :: ctx) t).toList ∧ top = ptr T (plug ctx t')) ∨
        FixupDone T top h' x' (plug (f :: ctx) t).toList) := by
  have hpar : (h (ptr T t)).parent = f.a := hf.parent
  have hother : (h f.a).child f.side.flip = ptr T f.other := hf.shape.ctxRep.1.child'
  have htop' : top = f.a ∨ ∀ t', ptr T (plug ctx t') = top := by
    cases ctx with
    | nil => exact .inl (by rw [htop, plug, plug, fill, ptr_node'])
    | cons g ctx => grind [plug, ptr_plug]
  rw [rbDeleteFixupSub, hpar, hother]
  cases hred : f.other.isRed with
  | false =>
    have hwred : (h (ptr T f.other)).red = false := by rw [hf.shape.sibling.red_eq, hred]
    have hskip : rbDeleteRed T f.side h (ptr T t) (ptr T f.other) = some (h, ptr T f.other) := by
      rw [rbDeleteRed, hwred, if_neg Bool.false_ne_true]
    rw [hskip, Option.bind_eq_bind, Option.bind_some]
    obtain ⟨h', x', hrun, hmore | hdone⟩ := rbDeleteBlack_spec hf ht hlack hred htop'
    · obtain ⟨t', hx', hptr, hleaf, -, hs', hlack', hlist⟩ := hmore
      refine ⟨h', x', hrun, .inl ⟨t', hx', hs'.focus hleaf, hlack', hlist, ?_⟩⟩
      cases ctx with
      | nil => rw [htop, plug, plug, plug, fill, ptr_node', hptr]
      | cons g ctx => exact htop.trans (ptr_plug ctx _ _)
    · exact ⟨h', x', hrun, .inr hdone⟩
  | true =>
    -- the sibling is rotated away; the parent is red now, so one more turn is the last
    obtain ⟨b, w, c, hw⟩ := exists_node'_of_isRed f.side hred
    obtain ⟨h1, hrun1, hf1⟩ := rbDeleteRed_spec hf hw
    obtain ⟨-, hb, hlack1⟩ := lacking_delete_red hlack hw
    rw [hw, ptr_node', hrun1, Option.bind_eq_bind, Option.bind_some]
    have hlist1 : (plug (⟨f.side, true, f.a, b⟩ :: ⟨f.side, false, w, c⟩ :: ctx) t).toList =
        (plug (f :: ctx) t).toList := by
      refine toList_plug_congr ctx ?_
      rw [fill, fill, fill, hw]
      cases f.side <;> simp [node', toList]
    obtain ⟨h', x', hrun, hmore | hdone⟩ := rbDeleteBlack_spec hf1 ht hlack1 hb (htop'.imp id fun hall t' => hall _)
    · obtain ⟨t', rfl, -, -, hred', hs', hlack', hlist⟩ := hmore
      refine ⟨h', ptr T t', hrun, .inr ⟨.inr ?_, _, shape_plug.mpr (hs'.paint false (.inr rfl)),
        ?_, hlack'.of_red hred'⟩⟩
      · rw [hs'.red_eq, hred']
      · rw [toList_plug_congr _ (toList_paint false t'), hlist, hlist1]
    · grind

end

/-- The side of the focus, where the sibling is a node: also a missing subtree is told apart. -/
lemma Focus.left_iff (hother : f.other ≠ .leaf) : ptr T t = (h f.a).left ↔ f.side = .left := by
  obtain rfl | ht := eq_or_ne t .leaf
  · have hn := hf.shape.ctxRep.1
    rw [left_eq_child]
    cases hside : f.side with
    | left =>
      rw [hside] at hn
      exact iff_of_true hn.child.symm rfl
    | right =>
      rw [hside] at hn
      have hflip : (h f.a).child .left = ptr T f.other := hn.child'
      rw [hflip]
      exact iff_of_false (fun hEq => hother (hf.shape.sibling.ptr_eq_nil.mp hEq.symm)) (by decide)
  · exact hf.shape.left_iff ht

/-- The body of the loop picks the side of the focus. -/
lemma rbDeleteTurn_eq (hother : f.other ≠ .leaf) :
    rbDeleteTurn T top h (ptr T t) = rbDeleteFixupSub T f.side top h (ptr T t) := by
  have hpar : (h (ptr T t)).parent = f.a := hf.parent
  have hiff := hf.left_iff hother
  rw [rbDeleteTurn, hpar]
  cases hside : f.side with
  | left => rw [if_pos (hiff.mpr hside)]
  | right => grind

end

/-- A red-black tree with the walk `list` is left. -/
abbrev Leaves (T : RbTree) (x : Option Heap) (list : List ℕ) : Prop :=
  ∃ h' t', x = some h' ∧ Shape T h' [] t' ∧ t'.toList = list ∧ t'.Proper

/-- The last check of the loop. -/
lemma rbDeleteFixupLoop_done (fuel : ℕ) {list : List ℕ} (hdone : FixupDone T top h x list) :
    Leaves T (rbDeleteFixupLoop T top (fuel + 1) h x) list := by
  obtain ⟨hend, t', hrest⟩ := hdone
  grind [rbDeleteFixupLoop]

/-- The whole repair. -/
lemma rbDeleteFixupLoop_spec (fuel : ℕ) (hf : Focus T h ctx t) (hlack : Lacking ctx t n)
    (htop : top = ptr T (plug ctx t)) (hfuel : ctx.length + 1 < fuel) :
    Leaves T (rbDeleteFixupLoop T top fuel h (ptr T t)) (plug ctx t).toList := by
  induction fuel generalizing h ctx t n with
  | zero => omega
  | succ fuel ih =>
    have hpaint := hf.shape.paint false (.inr rfl)
    cases hred : t.isRed with
    | true =>
      refine rbDeleteFixupLoop_done fuel ⟨.inr ?_, _, shape_plug.mpr hpaint, ?_, hlack.of_red hred⟩
      · rw [hf.shape.red_eq, hred]
      · exact toList_plug_congr ctx (toList_paint false t)
    | false =>
      cases ctx with
      | nil =>
        exact rbDeleteFixupLoop_done fuel ⟨.inl htop.symm, _, hpaint, toList_paint false t, hlack.of_root⟩
      | cons f ctx =>
        -- the focus is below the topmost node
        have hne : ptr T t ≠ top := htop ▸ hf.shape.ptr_ne (ptr_plug_mem ctx t)
        have hblack : (h (ptr T t)).red = false := by rw [hf.shape.red_eq, hred]
        obtain ⟨h1, x1, hrun, hmore | hdone⟩ := rbDeleteFixupSub_spec hf hred hlack htop
        · obtain ⟨t1, rfl, hf1, hlack1, hlist1, htop1⟩ := hmore
          rw [length_cons] at hfuel
          obtain ⟨h', t', hrun', hs', hlist', hrest⟩ := ih hf1 hlack1 htop1 (by omega)
          refine ⟨h', t', ?_, hs', hlist'.trans hlist1, hrest⟩
          rw [rbDeleteFixupLoop, if_pos ⟨hne, hblack⟩, rbDeleteTurn_eq hf hlack.other_ne_leaf, hrun]
          exact hrun'
        · obtain ⟨fuel, rfl⟩ : ∃ k, fuel = k + 1 := ⟨fuel - 1, by omega⟩
          obtain ⟨h', t', hrun', hrest⟩ := rbDeleteFixupLoop_done fuel hdone
          refine ⟨h', t', ?_, hrest⟩
          rw [rbDeleteFixupLoop, if_pos ⟨hne, hblack⟩, rbDeleteTurn_eq hf hlack.other_ne_leaf, hrun]
          exact hrun'

/-! ### Taking a node out -/

/-- The comparison with the left child of the parent finds the side of the node. -/
lemma replaceChild_eq {p : ℕ} {e : Side} (hpar : (h x).parent = p) (hhole : (h p).child e = x)
    (hflip : (h p).child e.flip ≠ x) : replaceChild h x y = setChild h p e y := by
  rw [replaceChild, hpar, left_eq_child]
  cases e with
  | left => rw [if_pos hhole.symm]
  | right => rw [if_neg fun hEq => hflip hEq.symm]

/-- A node with one child is replaced by the child. -/
lemma unlink_spec (hs : Shape T h ctx (node' d red s y .leaf)) :
    Focus T (replaceChild (setParent h (ptr T s) (h y).parent) y (ptr T s)) ctx s := by
  have hmem : ∀ {a}, a ∈ (node' d red s y .leaf).toList ↔ a = y ∨ a ∈ s.toList := by
    intro a
    rw [toList_node'_perm.mem_iff]
    simp [toList]
  have hnd : (y :: s.toList).Nodup := by
    have := toList_node'_perm.nodup_iff.mp hs.nodup_toList
    simpa [toList] using this
  have hy : y ∈ (node' d red s y .leaf).toList := hmem.mpr (.inl rfl)
  have hynil : y ≠ T.nil := fun hEq => hs.nil_notMem (hEq ▸ hy)
  have hsy : ptr T s ≠ y := by
    by_cases hleaf : s = .leaf
    · rw [hleaf]
      exact hynil.symm
    · grind [ptr_mem]
  obtain ⟨hn, hrep, -⟩ := rep_node'.mp hs.rep
  have hsa : ptr T s ≠ above T ctx := (shape_child.mp hs).ptr_ne (.tail _ (mem_append_right _ above_mem))
  have hhole := hs.hole_eq
  have hflip := hs.hole_flip_ne node'_ne_leaf
  rw [hn.parent, replaceChild_eq (p := above T ctx)
    (by simp [hsy.symm, hn.parent]) (by simpa using hhole) (by simpa using hflip)]
  refine ⟨⟨?_, ?_, ?_, ?_⟩, by simp⟩
  · refine hrep.reparent hnd.of_cons (fun _ => ?_) fun a ha hne => ?_
    · rw [setChild_of_ne hsa, setParent, update_self]
    · rw [setChild_of_ne (hs.ne_of_mem (hmem.mpr (.inr ha)) above_mem), setParent_of_ne hne]
  · refine hs.ctxRep.setHole hs.nodup_ctx (by simp) (by simp [hsa.symm]) (by simp)
      (by simp [(holeSide ctx).flip_ne]) fun a ha hne => ?_
    rw [setChild_of_ne hne, setParent_of_ne]
    exact ((shape_child.mp hs).ptr_ne (.tail _ (mem_append_right _ ha))).symm
  · simpa using hs.nilBlack
  · have hperm : ((node' d red s y .leaf).toList ++ ctxAddrs T ctx).Perm
        (y :: (s.toList ++ leaf.toList) ++ ctxAddrs T ctx) :=
      toList_node'_perm.append_right (ctxAddrs T ctx)
    have hnd' := (List.Perm.cons T.nil hperm).nodup_iff.mp hs.nodup
    grind

/-- A node that is not in the tree takes the place of another. -/
lemma rbDeleteMove_spec (hs : Shape T h ctx (.node red l z r))
    (hy : y ∉ (node red l z r).toList ++ ctxAddrs T ctx) (hynil : y ≠ T.nil) :
    Shape T (rbDeleteMove h y z) ctx (.node red l y r) ∧ (rbDeleteMove h y z T.nil).parent =
        if l = .leaf ∨ r = .leaf then y else (h T.nil).parent := by
  have hsl := (shape_fill ⟨.left, red, z, r⟩).mp hs
  have hsr := (shape_fill ⟨.right, red, z, l⟩).mp hs
  have hz : z ∈ (node red l z r).toList := by simp [toList]
  have hyz : y ≠ z := fun hEq => hy (mem_append_left _ (hEq ▸ hz))
  have hya : y ≠ above T ctx := fun hEq => hy (mem_append_right _ (hEq ▸ above_mem))
  have hza : z ≠ above T ctx := hs.ne_of_mem hz above_mem
  have hout : ∀ a ∈ l.toList ++ r.toList, a ≠ y := by grind [toList]
  -- the addresses of the children
  have hlz : ptr T l ≠ z := hsl.ptr_ne (.head _)
  have hrz : ptr T r ≠ z := hsr.ptr_ne (.head _)
  have hla : ptr T l ≠ above T ctx :=
    hsl.ptr_ne (.tail _ (mem_append_right _ above_mem))
  have hra : ptr T r ≠ above T ctx :=
    hsr.ptr_ne (.tail _ (mem_append_right _ above_mem))
  have hly : ptr T l ≠ y := ptr_ne_of_notMem hynil fun hm => hout y (mem_append_left _ hm) rfl
  have hry : ptr T r ≠ y := ptr_ne_of_notMem hynil fun hm => hout y (mem_append_right _ hm) rfl
  have hrl : ∀ a ∈ r.toList, a ≠ ptr T l := fun a ha =>
    (hsl.ptr_ne (.tail _ (mem_append_left _ ha))).symm
  have hlr : ∀ a ∈ l.toList, a ≠ ptr T r := fun a ha =>
    (hsr.ptr_ne (.tail _ (mem_append_left _ ha))).symm
  have hhole := hs.hole_eq
  have hflip := hs.hole_flip_ne (by simp)
  obtain ⟨hn, hrepl, hrepr⟩ := hs.rep
  have hmove : rbDeleteMove h y z =
      update (setParent (setParent (setChild h (above T ctx) (holeSide ctx) y) (ptr T r) y) (ptr T l) y) y
        (setParent (setParent (setChild h (above T ctx) (holeSide ctx) y) (ptr T r) y) (ptr T l) y z) := by
    have hleft : (h z).child .left = ptr T l := hn.child
    have hright : (h z).child .right = ptr T r := hn.child'
    rw [rbDeleteMove, if_pos hyz, replaceChild_eq hn.parent hhole hflip]
    grind [left_eq_child, right_eq_child, setParent_child, setChild_child]
  have hsame : ∀ a, a ≠ y → a ≠ ptr T l → a ≠ ptr T r → a ≠ above T ctx →
      rbDeleteMove h y z a = h a := by
    intro a hay hal har haa
    rw [hmove, update_of_ne hay, setParent_of_ne hal, setParent_of_ne har, setChild_of_ne haa]
  refine ⟨⟨⟨⟨?_, ?_, ?_, ?_⟩, ?_, ?_⟩, ?_, ?_, ?_⟩, ?_⟩
  · simp [hmove, hn.red]
  · simp [hmove, hlz.symm, hrz.symm, hn.parent]
  · simp [hmove, hza, hn.child]
  · have := hn.child'
    simpa [hmove, hza, Side.flip] using this
  · refine hrepl.reparent hsl.nodup_toList (fun hleaf => ?_) fun a ha hne => ?_
    · rw [hmove, update_of_ne hly, setParent, update_self,
        setParent_of_ne (hlr _ (ptr_mem hleaf)), setChild_of_ne hla]
    · exact hsame a (hout a (mem_append_left _ ha)) hne (hlr a ha)
        (hsl.ne_of_mem ha (.tail _ (mem_append_right _ above_mem)))
  · refine hrepr.reparent hsr.nodup_toList (fun hleaf => ?_) fun a ha hne => ?_
    · rw [hmove, update_of_ne hry, setParent_of_ne (hrl _ (ptr_mem hleaf)), setParent, update_self, setChild_of_ne hra]
    · exact hsame a (hout a (mem_append_right _ ha)) (hrl a ha) hne
        (hsr.ne_of_mem ha (.tail _ (mem_append_right _ above_mem)))
  · have hpar : rbDeleteMove h y z (above T ctx) =
        setChild h (above T ctx) (holeSide ctx) y (above T ctx) := by
      rw [hmove, update_of_ne hya.symm, setParent_of_ne hla.symm, setParent_of_ne hra.symm]
    refine hs.ctxRep.setHole hs.nodup_ctx (by simp [hpar]) (by simp [hpar]) (by simp [hpar, ptr])
      (by simp [hpar, (holeSide ctx).flip_ne]) fun a ha hne => hsame a ?_ ?_ ?_ hne
    · exact fun hEq => hy (mem_append_right _ (hEq ▸ ha))
    · exact (hsl.ptr_ne (.tail _ (mem_append_right _ ha))).symm
    · exact (hsr.ptr_ne (.tail _ (mem_append_right _ ha))).symm
  · rw [hmove, update_of_ne hynil.symm]
    simpa using hs.nilBlack
  · have hperm : ∀ a, ((node red l a r).toList ++ ctxAddrs T ctx).Perm
        (a :: (l.toList ++ r.toList ++ ctxAddrs T ctx)) :=
      fun a => (toList_node'_perm (d := .left)).append_right _
    have hnd := ((hperm z).cons T.nil).nodup_iff.mp hs.nodup
    grind
  · rw [hmove, update_of_ne hynil.symm, setParent_parent, setParent_parent, setChild_parent]
    have hl := eq_comm.trans hsl.ptr_eq_nil
    have hr := eq_comm.trans hsr.ptr_eq_nil
    by_cases hl' : l = .leaf
    · rw [if_pos (hl.mpr hl'), if_pos (.inl hl')]
    · grind

/-! ### The whole deletion -/

/-- The focus moves several steps at once. -/
lemma shape_append (path : Ctx ℕ) : Shape T h ctx (plug path t) ↔ Shape T h (path ++ ctx) t := by
  induction path generalizing t with
  | nil => rfl
  | cons f path ih => exact ih.trans (shape_fill f)

/-- Down on one side to the last node. -/
lemma descend_spec (d : Side) (fuel : ℕ) (hs : Shape T h ctx t) (ht : t ≠ .leaf)
    (hfuel : t.toList.length < fuel) :
    ∃ path red y o, t = plug path (node' d red .leaf y o) ∧ (∀ f ∈ path, f.side = d) ∧
      descend T d h fuel (ptr T t) = some y := by
  induction fuel generalizing t ctx with
  | zero => omega
  | succ fuel ih =>
    obtain ⟨red, s, a, o, rfl⟩ := exists_node' d ht
    have hn := (rep_node'.mp hs.rep).1
    rw [ptr_node', descend, hn.child]
    obtain rfl | hleaf := eq_or_ne s .leaf
    · refine ⟨[], red, a, o, rfl, by simp, ?_⟩
      rw [ptr, if_neg (by simp)]
    · have hs' := shape_child.mp hs
      have hlen : (node' d red s a o).toList.length = (a :: (s.toList ++ o.toList)).length :=
        toList_node'_perm.length_eq
      rw [length_cons, length_append] at hlen
      obtain ⟨path, red', y, o', hEq, hall, hrun⟩ := ih hs' hleaf (by omega)
      refine ⟨path ++ [⟨d, red, a, o⟩], red', y, o', ?_, ?_, ?_⟩
      · rw [plug_append, ← hEq]
        rfl
      · intro f hf
        obtain hf | hf := mem_append.mp hf
        · exact hall f hf
        · rw [mem_singleton.mp hf]
      · rw [if_pos fun hEq => hleaf (hs'.ptr_eq_nil.mp hEq)]
        exact hrun

@[simp] lemma replaceChild_red (h : Heap) (a b c : ℕ) : (replaceChild h a b c).red = (h c).red := by
  rw [replaceChild]
  split_ifs <;> rw [setChild_red]

variable {fuel : ℕ}

/-- `rb_delete`, once the node that leaves the tree and its child are known. -/
lemma rbDelete_eq (hvictim : rbDeleteVictim T fuel h z = some y)
    (hx : (if (h y).left ≠ T.nil then (h y).left else (h y).right) = x) (hroot : y ≠ T.root)
    (hnil : y ≠ T.nil) : rbDelete T fuel h z = if (!(h y).red) = true then
        rbDeleteFixup T fuel (rbDeleteMove (replaceChild (setParent h x (h y).parent) y x) y z) x
      else some (rbDeleteMove (replaceChild (setParent h x (h y).parent) y x) y z) := by
  grind [rbDelete, replaceChild_red, setParent_red]

variable {k : ℕ}

/-- The end of `rb_delete`: a node of colour `red` with the one child `s` has left the hole. -/
lemma rbDelete_finish (hf : Focus T h ctx s) (hctx : CtxOk ctx red k)
    (hnode : Rb (node' d red s y .leaf) k) (hfuel : ctx.length + 1 < fuel) :
    Leaves T (if (!red) = true then rbDeleteFixup T fuel h (ptr T s) else some h) (plug ctx s).toList := by
  obtain ⟨hred, m, hs, hm, hk⟩ := rb_node'.mp hnode
  obtain rfl := hm
  cases red with
  | true =>
    obtain rfl := hk
    have hok : CtxOk ctx s.isRed 0 := by
      rw [(hred rfl).1]
      exact hctx.black
    exact ⟨h, plug ctx s, rfl, shape_plug.mpr hf.shape, rfl, rb_plug hok hs⟩
  | false =>
    obtain rfl := hk
    have hlack : Lacking ctx s 0 := by
      refine ⟨hctx, ?_⟩
      split_ifs with hsred
      · exact hs.paint_false hsred
      · exact hs
    have htop := (shape_plug.mpr hf.shape).hole_eq
    obtain ⟨h', t', hrun, hrest⟩ := rbDeleteFixupLoop_spec fuel hf hlack htop hfuel
    exact ⟨h', t', hrun, hrest⟩

/-- A node with at most one child. -/
lemma rbDelete_one (hs : Shape T h ctx (node' d red s z .leaf))
    (hctx : CtxOk ctx red k) (hnode : Rb (node' d red s z .leaf) k)
    (hd : s = .leaf → d = .right) (hfuel : ctx.length + 1 < fuel) :
    Leaves T (rbDelete T fuel h z) (plug ctx s).toList := by
  have hz : z ∈ (node' d red s z .leaf).toList :=
    toList_node'_perm.mem_iff.mpr (.head _)
  have hroot : z ≠ T.root := hs.ne_of_mem hz root_mem
  have hnil : z ≠ T.nil := fun hEq => hs.nil_notMem (hEq ▸ hz)
  have hn := (rep_node'.mp hs.rep).1
  have hsnil := (shape_child.mp hs).ptr_eq_nil
  have hvictim : rbDeleteVictim T fuel h z = some z := by
    rw [rbDeleteVictim, if_pos]
    cases d with
    | left => exact .inr hn.child'
    | right => exact .inl hn.child'
  have hx : (if (h z).left ≠ T.nil then (h z).left else (h z).right) = ptr T s := by
    cases d with
    | left =>
      have hleft : (h z).left = ptr T s := hn.child
      rw [hleft, if_pos fun hEq => by cases hd (hsnil.mp hEq)]
    | right =>
      have hleft : (h z).left = T.nil := hn.child'
      rw [hleft, if_neg (not_not.mpr rfl)]
      exact hn.child
  obtain ⟨h', t', hrun, hrest⟩ := rbDelete_finish (unlink_spec hs) hctx hnode hfuel
  refine ⟨h', t', ?_, hrest⟩
  rw [rbDelete_eq hvictim hx hroot hnil, rbDeleteMove, if_neg (not_not.mpr rfl), hn.red]
  exact hrun

/-- A node with two children gives its place to its successor. -/
lemma rbDelete_two {path : Ctx ℕ} {cy : Bool}
    (hs : Shape T h ctx (.node red l z (plug path (node' .left cy .leaf y s)))) (hl : l ≠ .leaf)
    (hctx : CtxOk (path ++ ⟨.right, red, z, l⟩ :: ctx) cy k) (hnode : Rb (node' .left cy .leaf y s) k)
    (hrun : descend T .left h fuel (ptr T (plug path (node' .left cy .leaf y s))) = some y)
    (hfuel : (path ++ (⟨.right, red, y, l⟩ : Frame ℕ) :: ctx).length + 1 < fuel) :
    Leaves T (rbDelete T fuel h z) (plug ctx (.node red l y (plug path s))).toList := by
  have hsr := (shape_fill ⟨.right, red, z, l⟩).mp hs
  have hsy := (shape_append path).mp hsr
  have hy : y ∈ (node' .left cy .leaf y s).toList :=
    toList_node'_perm.mem_iff.mpr (.head _)
  have hyroot : y ≠ T.root := hsy.ne_of_mem hy root_mem
  have hynil : y ≠ T.nil := fun hEq => hsy.nil_notMem (hEq ▸ hy)
  have hrne : plug path (node' .left cy .leaf y s) ≠ .leaf := by grind [node', toList, toList_plug]
  have hleft : (h z).left = ptr T l := hs.rep.1.child
  have hright : (h z).right = ptr T (plug path (node' .left cy .leaf y s)) := hs.rep.1.child'
  have hlnil : ptr T l ≠ T.nil := fun hEq =>
    hl (((shape_fill (⟨.left, red, z, _⟩ : Frame ℕ)).mp hs).ptr_eq_nil.mp hEq)
  have hrnil : ptr T (plug path (node' .left cy .leaf y s)) ≠ T.nil := fun hEq =>
    hrne (hsr.ptr_eq_nil.mp hEq)
  have hvictim : rbDeleteVictim T fuel h z = some y := by grind [rbDeleteVictim, rbTreeSuccessor]
  have hyn := (rep_node'.mp hsy.rep).1
  have hx : (if (h y).left ≠ T.nil then (h y).left else (h y).right) = ptr T s := by
    have hyleft : (h y).left = T.nil := hyn.child
    rw [hyleft, if_neg (not_not.mpr rfl)]
    exact hyn.child'
  -- first the successor leaves the tree, then it takes the place of the node
  have hf1 : Focus T (replaceChild (setParent h (ptr T s) (h y).parent) y (ptr T s))
      (path ++ ⟨.right, red, z, l⟩ :: ctx) s :=
    unlink_spec (d := .right) hsy
  generalize hh1 : replaceChild (setParent h (ptr T s) (h y).parent) y (ptr T s) = h1 at hf1
  have hs1 : Shape T h1 ctx (.node red l z (plug path s)) :=
    (shape_fill ⟨.right, red, z, l⟩).mpr ((shape_append path).mpr hf1.shape)
  have hnd : (y :: (s.toList ++ ctxAddrs T (path ++ ⟨.right, red, z, l⟩ :: ctx))).Nodup :=
    hsy.nodup.of_cons
  have hyout : y ∉ (node red l z (plug path s)).toList ++ ctxAddrs T ctx := by
    have hperm := (plug_perm ctx (.node red l z (plug path s))).symm.trans
      ((List.Perm.of_eq (by rw [plug_append]; rfl)).trans (plug_perm (T := T) (path ++ ⟨.right, red, z, l⟩ :: ctx) s))
    rw [hperm.mem_iff]
    exact hnd.notMem
  obtain ⟨hs2, hnilpar⟩ := rbDeleteMove_spec hs1 hyout hynil
  have hs3 := (shape_append path).mp ((shape_fill ⟨.right, red, y, l⟩).mp hs2)
  have hf3 : Focus T (rbDeleteMove h1 y z) (path ++ ⟨.right, red, y, l⟩ :: ctx) s := by
    refine ⟨hs3, ?_⟩
    by_cases hleaf : s = .leaf
    · -- the parent in the sentinel is the moved node only where that is the parent
      subst hleaf
      cases path with
      | nil => exact hnilpar.trans (if_pos (.inr rfl))
      | cons f path =>
        have hne : plug (f :: path) .leaf ≠ .leaf := by grind [length_ctx_le]
        exact (hnilpar.trans (if_neg (not_or.mpr ⟨hl, hne⟩))).trans hf1.parent
    · exact hs3.parent_eq hleaf
  obtain ⟨h', t', hfin, hs', hlist, hrest⟩ := rbDelete_finish (d := .right) hf3 hctx.rename hnode hfuel
  refine ⟨h', t', ?_, hs', ?_, hrest⟩
  · rw [rbDelete_eq hvictim hx hyroot hynil, hyn.red, hh1]
    exact hfin
  · rw [hlist, plug_append]
    rfl

/-- `rb_delete` of a node of the tree. -/
lemma rbDelete_spec (hs : Shape T h [] t) (hblack : t.isRed = false) (hrb : Rb t n)
    (hz : z ∈ t.toList) (hfuel : t.toList.length + 1 < fuel) :
    ∃ h' t', rbDelete T fuel h z = some h' ∧ Shape T h' [] t' ∧ t'.isRed = false ∧
      (∃ m, Rb t' m) ∧ t'.toList = t.toList.erase z := by
  obtain ⟨ctx, red, l, r, rfl⟩ := exists_focus hz
  have hnd := hs.nodup_toList
  have hsz := shape_plug.mp hs
  have hlist : (plug ctx (.node red l z r)).toList =
      (before ctx ++ l.toList) ++ z :: (r.toList ++ after ctx) := by
    rw [toList_plug, toList]
    simp
  have herase : ∀ t', t'.toList = l.toList ++ r.toList →
      (plug ctx t').toList = (plug ctx (.node red l z r)).toList.erase z := by grind [toList_plug]
  obtain ⟨k, hctx, hnode⟩ := exists_ctxOk hblack hrb
  have hlen := length_ctx_le ctx (.node red l z r)
  suffices hleaves : Leaves T (rbDelete T fuel h z) ((plug ctx (.node red l z r)).toList.erase z) by
    obtain ⟨h', t', hrun, hs', hlist', hblack', hrb'⟩ := hleaves
    exact ⟨h', t', hrun, hs', hblack', hrb', hlist'⟩
  obtain rfl | hl := eq_or_ne l .leaf
  · rw [← herase r rfl]
    exact rbDelete_one (d := .right) hsz hctx hnode (fun _ => rfl) (by omega)
  · obtain rfl | hr := eq_or_ne r .leaf
    · rw [← herase l (append_nil _).symm]
      exact rbDelete_one (d := .left) hsz hctx hnode (absurd · hl) (by omega)
    · have hsr := (shape_fill ⟨.right, red, z, l⟩).mp hsz
      have hrlen : r.toList.length < fuel := by grind
      obtain ⟨path, cy, y, s, rfl, hall, hdesc⟩ := descend_spec .left fuel hsr hr hrlen
      have hplug : plug (path ++ ⟨.right, red, z, l⟩ :: ctx) (node' .left cy .leaf y s) =
          plug ctx (.node red l z (plug path (node' .left cy .leaf y s))) := by
        rw [plug_append]
        rfl
      rw [← hplug] at hblack hrb
      obtain ⟨j, hctx', hnode'⟩ := exists_ctxOk hblack hrb
      have hlen' := length_ctx_le (path ++ ⟨.right, red, z, l⟩ :: ctx) (node' .left cy .leaf y s)
      -- the successor is the first node of the right subtree
      have hbefore : before path = [] := before_eq_nil hall
      rw [← herase (.node red l y (plug path s)) (by grind [toList, toList_plug, node'])]
      exact rbDelete_two hsz hl hctx' hnode' hdesc (by grind)

end UcoreKernel.Rb
