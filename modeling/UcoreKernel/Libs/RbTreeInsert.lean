import UcoreKernel.Libs.RbTreeShape

/-!
`rb_insert` keeps the red-black rules and puts the new node at its place in the walk.
-/

namespace UcoreKernel.Rb

open RedBlack RedBlack.ColTree ColTree Frame
open List hiding after

variable {T : RbTree} {h : Heap} {ctx : Ctx ℕ} {t : ColTree ℕ} {f g : Frame ℕ} {n : ℕ}

/-! ### Repair -/

section

variable (hs : Shape T h (f :: g :: ctx) t) (ht : t ≠ .leaf)
include hs ht

/-- The fields that `RB_INSERT_SUB` reads: the parent, the grandparent and the uncle. -/
lemma Shape.grandparent : (h (ptr T t)).parent = f.a ∧ (h f.a).parent = g.a ∧
      (h g.a).child g.side.flip = ptr T g.other ∧ (h (ptr T g.other)).red = g.other.isRed := by
  have hup := (shape_fill f).mpr hs
  refine ⟨hs.parent_eq ht, hs.ctxRep.1.parent, hs.ctxRep.2.2.1.child', ?_⟩
  have huncle : Shape T h (⟨g.side.flip, g.red, g.a, f.fill t⟩ :: ctx) g.other :=
    shape_child'.mp ((shape_fill g).mpr hup)
  exact huncle.red_eq

/-- The turn with a red uncle. -/
lemma rbInsertSub_recolor (huncle : g.other.isRed = true) :
    ∃ h', rbInsertSub T g.side h (ptr T t) = some (h', g.a) ∧ Shape T h' ctx
      (node' g.side true (node' f.side false t f.a f.other) g.a (g.other.paint false)) := by
  obtain ⟨hp, hg, hu, hured⟩ := hs.grandparent ht
  -- the parent, the uncle and the grandparent are painted in turn
  have hs1 := ((shape_fill f).mpr hs).paint false (.inr rfl)
  rw [fill, ptr_node', paint_node'] at hs1
  have hs2 := (shape_child'.mp ((shape_fill g).mpr hs1)).paint false (.inr rfl)
  have hs3 := (shape_child'.mpr hs2).paint true (.inl node'_ne_leaf)
  grind [ptr_node', paint_node', rbInsertSub, setRed_parent]

end

variable {b c : ColTree ℕ} {x : ℕ}

/-- The rotation at the grandparent, after which the tree is in order. -/
lemma rotate_grandparent {a : ColTree ℕ} {d : Side} {y : ℕ} {red : Bool}
    (hs : Shape T h ctx (node' d red (node' d true a x b) y c)) :
    ∃ h', rbRotate T d.flip (setRed (setRed h x false) y true) y = some h' ∧
      Shape T h' ctx (node' d false a x (node' d true b y c)) := by
  have hs1 := (shape_child.mp hs).paint false (.inr rfl)
  rw [ptr_node', paint_node'] at hs1
  have hs2 := (shape_child.mpr hs1).paint true (.inl node'_ne_leaf)
  rw [ptr_node', paint_node', ← node'_flip, ← node'_flip (s := a)] at hs2
  grind [rbRotate_spec, node'_flip]

/-- The turn with a black uncle, the focus on the outer side of the parent. -/
lemma rbInsertSub_outer (hs : Shape T h (f :: g :: ctx) t) (ht : t ≠ .leaf) (hf : f.red = true)
    (huncle : g.other.isRed = false) (hside : f.side = g.side) :
    ∃ h' x', rbInsertSub T g.side h (ptr T t) = some (h', x') ∧
      Shape T h' ctx (node' g.side false t f.a (node' g.side true f.other g.a g.other)) ∧
      (h' (h' x').parent).red = false := by
  obtain ⟨hp, hg, hu, hured⟩ := hs.grandparent ht
  have hne : ptr T t ≠ (h f.a).child g.side.flip := by
    rw [← hside]
    exact (hs.hole_flip_ne ht).symm
  have hs0 : Shape T h ctx (node' g.side g.red (node' g.side true t f.a f.other) g.a g.other) := by
    have := (shape_fill g).mpr ((shape_fill f).mpr hs)
    rwa [fill, fill, hside, hf] at this
  obtain ⟨h', hrun, hs'⟩ := rotate_grandparent hs0
  refine ⟨h', ptr T t, ?_, hs', ?_⟩
  · rw [rbInsertSub, rbInsertInner, hp, hg, hu, hured, if_neg (by simp [huncle]), if_neg hne]
    grind [setRed_parent]
  · have hx := shape_child.mp hs'
    rw [hx.parent_eq ht]
    have hpar := hs'.red_eq
    rwa [ptr_node', isRed_node'] at hpar

/-- The turn with a black uncle, the focus on the inner side of the parent. -/
lemma rbInsertSub_inner (hs : Shape T h (f :: g :: ctx) (node' g.side true b x c)) (hf : f.red = true)
    (huncle : g.other.isRed = false) (hside : f.side = g.side.flip) :
    ∃ h' x', rbInsertSub T g.side h x = some (h', x') ∧
      Shape T h' ctx (node' g.side false (node' g.side true f.other f.a b) x
        (node' g.side true c g.a g.other)) ∧ (h' (h' x').parent).red = false := by
  obtain ⟨hp, hg, hu, hured⟩ := hs.grandparent node'_ne_leaf
  rw [ptr_node'] at hp
  have hEq : x = (h f.a).child g.side.flip := by
    have := hs.hole_eq
    rw [ptr_node'] at this
    rw [← hside]
    exact this.symm
  have hs0 : Shape T h (g :: ctx) (node' g.side true f.other f.a (node' g.side true b x c)) := by
    have := (shape_fill f).mpr hs
    rwa [fill, hside, hf, node'_flip] at this
  -- the first rotation brings the focus to the outer side
  obtain ⟨h1, hrun1, hs1, -⟩ := rbRotate_spec hs0
  have hp1 : (h1 f.a).parent = x := by
    have := (shape_child.mp hs1).parent_eq node'_ne_leaf
    rwa [ptr_node'] at this
  have hg1 : (h1 x).parent = g.a := by
    have := hs1.parent_eq node'_ne_leaf
    rwa [ptr_node'] at this
  obtain ⟨h', hrun, hs'⟩ := rotate_grandparent ((shape_fill g).mpr hs1)
  refine ⟨h', f.a, ?_, hs', ?_⟩
  · rw [rbInsertSub, rbInsertInner, hp, hg, hu, hured, if_neg (by simp [huncle]), if_pos hEq]
    simp only [Option.pure_def, Option.bind_eq_bind, hrun1, Option.bind_some, setRed_parent, hp1, hg1, hrun]
  · have hx := (shape_child.mp hs').parent_eq node'_ne_leaf
    rw [ptr_node'] at hx
    rw [hx]
    have hpar := hs'.red_eq
    rwa [ptr_node', isRed_node'] at hpar

/-- One turn: either the violation has moved to the grandparent, or it is gone. -/
lemma rbInsertSub_spec (hs : Shape T h (f :: g :: ctx) t) (ht : t.isRed = true) (hrb : Rb t n)
    (hctx : CtxOk (f :: g :: ctx) false n) (hf : f.red = true) :
    ∃ h' x' t', rbInsertSub T g.side h (ptr T t) = some (h', x') ∧ Shape T h' ctx t' ∧
      (plug ctx t').toList = (plug (f :: g :: ctx) t).toList ∧ Rb t' (n + 1) ∧ CtxOk ctx false (n + 1) ∧
      ((x' = ptr T t' ∧ t'.isRed = true) ∨ (t'.isRed = false ∧ (h' (h' x').parent).red = false)) := by
  have hleaf : t ≠ .leaf := by
    rintro rfl
    cases ht
  cases huncle : g.other.isRed with
  | true =>
    obtain ⟨h', hrun, hs'⟩ := rbInsertSub_recolor hs hleaf huncle
    obtain ⟨hrb', hctx'⟩ := rb_insert_recolor hctx hf hrb huncle
    refine ⟨h', g.a, _, hrun, hs', toList_plug_congr ctx ?_, hrb', hctx', .inl ⟨ptr_node'.symm, isRed_node'⟩⟩
    rw [fill, fill]
    cases f.side <;> cases g.side <;> simp [node', toList]
  | false =>
    by_cases hside : f.side = g.side
    · obtain ⟨h', x', hrun, hs', hblack⟩ := rbInsertSub_outer hs hleaf hf huncle hside
      obtain ⟨hrb', hctx'⟩ := rb_insert_outer hctx hf hrb huncle
      refine ⟨h', x', _, hrun, hs', toList_plug_congr ctx ?_, hrb', hctx', .inr ⟨isRed_node', hblack⟩⟩
      rw [fill, fill, hside]
      cases g.side <;> simp [node', toList]
    · have hside' : f.side = g.side.flip := by
        revert hside
        cases f.side <;> cases g.side <;> simp [Side.flip]
      obtain ⟨b, x, c, rfl⟩ := exists_node'_of_isRed g.side ht
      obtain ⟨h', x', hrun, hs', hblack⟩ := rbInsertSub_inner hs hf huncle hside'
      obtain ⟨hrb', hctx'⟩ := rb_insert_inner hctx hf hrb huncle
      refine ⟨h', x', _, by rw [ptr_node']; exact hrun, hs', toList_plug_congr ctx ?_, hrb', hctx',
        .inr ⟨isRed_node', hblack⟩⟩
      rw [fill, fill, hside']
      cases g.side <;> simp [node', toList, Side.flip]

/-- The side of a node is found by comparing it with the left child of its parent. -/
lemma Shape.left_iff (hs : Shape T h (f :: ctx) t) (ht : t ≠ .leaf) :
    ptr T t = (h f.a).left ↔ f.side = .left := by
  have hhole := hs.hole_eq
  have hflip := hs.hole_flip_ne ht
  rw [above, holeSide] at hhole hflip
  rw [left_eq_child]
  cases hside : f.side with
  | left =>
    rw [hside] at hhole
    exact iff_of_true hhole.symm rfl
  | right => grind [Side.flip]

/-- The body of the loop picks the side of the parent. -/
lemma rbInsertTurn_eq (hs : Shape T h (f :: g :: ctx) t) (ht : t ≠ .leaf) :
    rbInsertTurn T h (ptr T t) = rbInsertSub T g.side h (ptr T t) := by
  obtain ⟨hp, hg, -⟩ := hs.grandparent ht
  have hup := (shape_fill f).mpr hs
  have hiff := hup.left_iff node'_ne_leaf
  rw [fill, ptr_node'] at hiff
  rw [rbInsertTurn, hp, hg]
  cases hside : g.side with
  | left => rw [if_pos (hiff.mpr hside)]
  | right => grind

/-- The whole repair: the focus is red and fine otherwise. -/
lemma rbInsertFixup_spec (fuel : ℕ) (hs : Shape T h ctx t) (ht : t.isRed = true) (hrb : Rb t n)
    (hctx : CtxOk ctx false n) (hfuel : ctx.length + 1 < fuel) :
    ∃ h' t', rbInsertFixup T fuel h (ptr T t) = some h' ∧ Shape T h' [] t' ∧
      t'.toList = (plug ctx t).toList ∧ ∃ m, Rb t' m := by
  induction fuel generalizing h ctx t n with
  | zero => omega
  | succ fuel ih =>
    have hleaf : t ≠ .leaf := by
      rintro rfl
      cases ht
    rw [rbInsertFixup, hs.parent_eq hleaf]
    by_cases hred : (h (above T ctx)).red = true
    · rw [if_pos hred]
      -- a red parent has a parent itself, for the topmost node and the sentinel are black
      match ctx, hs, hctx, hred, hfuel with
      | [], hs, _, hred, _ =>
        exact absurd (hs.ctxRep.1.symm.trans hred) Bool.false_ne_true
      | [f], hs, hctx, hred, _ =>
        have hf : f.red = false := hctx.2.2
        exact absurd (hf.symm.trans (hs.ctxRep.1.red.symm.trans hred)) Bool.false_ne_true
      | f :: g :: ctx, hs, hctx, hred, hfuel =>
        have hf : f.red = true := hs.ctxRep.1.red.symm.trans hred
        obtain ⟨h1, x1, t1, hrun, hs1, hlist, hrb1, hctx1, hnext⟩ :=
          rbInsertSub_spec hs ht hrb hctx hf
        rw [rbInsertTurn_eq hs hleaf, hrun, Option.bind_eq_bind, Option.bind_some]
        obtain ⟨rfl, hred1⟩ | ⟨hblack, hpar⟩ := hnext
        · grind
        · refine ⟨h1, plug ctx t1, ?_, shape_plug.mpr hs1, hlist, ?_⟩
          · obtain ⟨fuel', rfl⟩ : ∃ fuel', fuel = fuel' + 1 := ⟨fuel - 1, by omega⟩
            grind [rbInsertFixup]
          · exact (rb_plug (by rw [hblack]; exact hctx1) hrb1).2
    · rw [if_neg hred]
      refine ⟨h, plug ctx t, rfl, shape_plug.mpr hs, rfl, ?_⟩
      cases ctx with
      | nil => exact ⟨n, hrb⟩
      | cons f ctx =>
        have hf : f.red = false := by
          rw [← hs.ctxRep.1.red]
          exact Bool.not_eq_true _ ▸ hred
        have hok : CtxOk (f :: ctx) t.isRed n := by
          refine ⟨fun hft => ?_, hctx.2⟩
          rw [hf] at hft
          cases hft
        exact (rb_plug hok hrb).2

/-! ### The place of the new node -/

/-- A comparison function that is a total preorder. -/
structure TotalPreorder (cmp : ℕ → ℕ → ℤ) : Prop where
  flip : ∀ a b, cmp a b ≤ 0 ↔ 0 ≤ cmp b a
  trans : ∀ a b c, cmp a b ≤ 0 → cmp b c ≤ 0 → cmp a c ≤ 0

/-- The walk is in order. -/
def Sorted (cmp : ℕ → ℕ → ℤ) (l : List ℕ) : Prop := l.Pairwise fun a b => cmp a b ≤ 0

variable {cmp : ℕ → ℕ → ℤ}

/-- The walk down ends in a hole that splits the tree into the nodes not above the new one and
the nodes above it; the last comparison tells the side of the hole. -/
lemma insertDescend_spec (hcmp : TotalPreorder cmp) (node fuel : ℕ)
    (hs : Shape T h ctx t) (hsorted : Sorted cmp t.toList) (hfuel : t.toList.length < fuel)
    (hbefore : ∀ b ∈ before ctx, cmp b node ≤ 0) (hafter : ∀ b ∈ after ctx, 0 < cmp b node)
    (hside : (above T ctx = T.root ∨ cmp (above T ctx) node > 0) ↔ holeSide ctx = .left) :
    ∃ ctx', insertDescend T cmp h node fuel (above T ctx) (ptr T t) = some (above T ctx') ∧
      plug ctx' .leaf = plug ctx t ∧ (∀ b ∈ before ctx', cmp b node ≤ 0) ∧ (∀ b ∈ after ctx', 0 < cmp b node) ∧
      ((above T ctx' = T.root ∨ cmp (above T ctx') node > 0) ↔ holeSide ctx' = .left) := by
  induction t generalizing ctx fuel with
  | leaf =>
    obtain _ | fuel := fuel
    · omega
    grind [insertDescend, ptr]
  | node red l a r ihl ihr =>
    obtain _ | fuel := fuel
    · omega
    have hne : a ≠ T.nil := fun hEq => hs.nil_notMem (by simp [toList, hEq])
    have hroot : a ≠ T.root := hs.ne_of_mem (by simp [toList]) root_mem
    rw [Sorted, toList, pairwise_append, pairwise_cons] at hsorted
    obtain ⟨hsl, ⟨har, hsr⟩, hla⟩ := hsorted
    rw [toList, length_append, length_cons] at hfuel
    have hn := hs.rep.1
    rw [insertDescend, ptr, if_neg hne]
    split_ifs with hgt
    · rw [left_eq_child, hn.child]
      have hsl' := (shape_fill ⟨.left, red, a, r⟩).mp hs
      obtain ⟨ctx', hrun, hplug, hrest⟩ := ihl fuel hsl' hsl (by omega) hbefore (by
        intro b hb
        rw [after, mem_append, mem_cons] at hb
        obtain (rfl | hb) | hb := hb
        · exact hgt
        · by_contra hle
          exact absurd (hcmp.trans a b node (har b hb) (not_lt.mp hle)) (not_le.mpr hgt)
        · exact hafter b hb) (by simp [above, holeSide, hgt])
      exact ⟨ctx', hrun, hplug, hrest⟩
    · rw [right_eq_child, show (h a).child .right = _ from hn.child']
      have hsr' := (shape_fill ⟨.right, red, a, l⟩).mp hs
      obtain ⟨ctx', hrun, hplug, hrest⟩ := ihr fuel hsr' hsr (by omega) (by
        intro b hb
        simp only [before, mem_append, mem_singleton] at hb
        obtain hb | hb | rfl := hb
        · exact hbefore b hb
        · exact hcmp.trans b a node (hla b hb a (.head _)) (not_lt.mp hgt)
        · exact not_lt.mp hgt) hafter (by simp [above, holeSide, hgt, hroot])
      exact ⟨ctx', hrun, hplug, hrest⟩

variable {node : ℕ}

/-- The nodes of a new list of the walk are in order. -/
lemma sorted_insert (hcmp : TotalPreorder cmp) {l₁ l₂ : List ℕ}
    (hsorted : Sorted cmp (l₁ ++ l₂)) (hbefore : ∀ b ∈ l₁, cmp b node ≤ 0)
    (hafter : ∀ b ∈ l₂, 0 < cmp b node) : Sorted cmp (l₁ ++ node :: l₂) := by
  rw [Sorted, pairwise_append] at hsorted ⊢
  obtain ⟨h1, h2, h12⟩ := hsorted
  refine ⟨h1, pairwise_cons.mpr ⟨fun b hb => ?_, h2⟩, fun a ha b hb => ?_⟩
  · exact (hcmp.flip node b).mpr (hafter b hb).le
  · grind

/-- A node without children in the place of a leaf. -/
lemma Shape.attach (hs : Shape T h ctx .leaf) (hctx : node ∉ ctxAddrs T ctx)
    (hnil : node ≠ T.nil) (hl : (h node).child .left = T.nil) (hr : (h node).child .right = T.nil) :
    Shape T (setChild (setParent h node (above T ctx)) (above T ctx) (holeSide ctx) node) ctx
      (.node (h node).red .leaf node .leaf) := by
  have hne : ∀ b ∈ ctxAddrs T ctx, b ≠ node := fun b hb hEq => hctx (hEq ▸ hb)
  have hna : node ≠ above T ctx := (hne _ above_mem).symm
  have hflip := (holeSide ctx).flip_ne
  refine ⟨⟨⟨by simp, by simp, ?_, ?_⟩, trivial, trivial⟩, ?_, ?_, ?_⟩
  · simp [hna, hl, ptr]
  · simpa [hna, ptr, Side.flip] using hr
  · refine hs.ctxRep.setHole hs.nodup_ctx (by simp) (by simp [hna.symm]) (by simp [ptr])
      (by simp [hflip]) fun b hb hba => ?_
    rw [setChild_of_ne hba, setParent_of_ne (hne b hb)]
  · simpa using hs.nilBlack
  · have hnd := hs.nodup
    grind [toList]

variable {fuel : ℕ}

/-- `rb_insert_binary`, once the place is found. -/
lemma rbInsertBinary_eq (hs : Shape T (setChild (setChild h node .right T.nil) node .left T.nil) [] t)
    (hdesc : insertDescend T cmp (setChild (setChild h node .right T.nil) node .left T.nil) node
      fuel T.root (ptr T t) = some (above T ctx))
    (hside : (above T ctx = T.root ∨ cmp (above T ctx) node > 0) ↔ holeSide ctx = .left) :
    rbInsertBinary T fuel cmp h node =
      some (setChild (setParent (setChild (setChild h node .right T.nil) node .left T.nil) node
        (above T ctx)) (above T ctx) (holeSide ctx) node) := by
  have htop : (setChild (setChild h node .right T.nil) node .left T.nil T.root).left = ptr T t :=
    hs.hole_eq
  rw [rbInsertBinary, htop, hdesc, Option.bind_eq_bind, Option.bind_some]
  cases hh : holeSide ctx with
  | left => rw [if_pos (hside.mpr hh)]; rfl
  | right => grind

/-- `rb_insert` of a node that is not in the tree: it goes behind the nodes that are not above
it, and the tree is red-black again. -/
lemma rbInsert_spec (hcmp : TotalPreorder cmp) (hs : Shape T h [] t) (hblack : t.isRed = false) (hrb : Rb t n)
    (hsorted : Sorted cmp t.toList) (hnode : node ∉ t.toList) (hnil : node ≠ T.nil)
    (hroot : node ≠ T.root) (hfuel : t.toList.length + 1 < fuel) :
    ∃ h' t' l₁ l₂, rbInsert T fuel cmp h node = some h' ∧ Shape T h' [] t' ∧
      t'.isRed = false ∧ (∃ m, Rb t' m) ∧ t.toList = l₁ ++ l₂ ∧
      t'.toList = l₁ ++ node :: l₂ ∧ (∀ b ∈ l₁, cmp b node ≤ 0) ∧ ∀ b ∈ l₂, 0 < cmp b node := by
  -- the node gets its empty children
  have hs0 : Shape T (setChild (setChild h node .right T.nil) node .left T.nil) [] t := by
    refine hs.congr ?_ fun b hb => ?_
    · rw [setChild_of_ne hnil.symm, setChild_of_ne hnil.symm]
    · have hbn : b ≠ node := by
        rintro rfl
        obtain hb | hb := mem_append.mp hb
        · exact hnode hb
        · exact hroot (mem_singleton.mp hb)
      rw [setChild_of_ne hbn, setChild_of_ne hbn]
  obtain ⟨ctx, hdesc, hplug, hbefore, hafter, hside⟩ := insertDescend_spec hcmp node fuel
    hs0 hsorted (by omega) (by simp [before]) (by simp [after]) (by simp [above, holeSide])
  replace hplug : plug ctx .leaf = t := hplug
  have hleaf := shape_plug.mp (hplug ▸ hs0 : Shape T _ [] (plug ctx .leaf))
  have hlist : t.toList = before ctx ++ after ctx := by grind [toList_plug, toList]
  have hnctx : node ∉ ctxAddrs T ctx := by
    intro hm
    have := (plug_perm ctx .leaf).mem_iff.mpr (mem_append_right _ hm)
    grind
  have hs1 := hleaf.attach hnctx hnil (by simp) (by simp)
  have hs2 := hs1.paint true (.inl (by simp))
  -- a red node takes the place of the leaf
  rw [← hplug] at hblack hrb
  obtain ⟨_, hctx, rfl⟩ := exists_ctxOk hblack hrb
  have hlen := length_ctx_le ctx .leaf
  rw [hplug] at hlen
  obtain ⟨h3, t3, hfix, hs3, hlist3, hrb3⟩ := rbInsertFixup_spec fuel hs2 rfl
    ⟨fun _ => ⟨rfl, rfl⟩, 0, rfl, rfl, rfl⟩ hctx (by omega)
  have hs4 := hs3.paint false (.inr rfl)
  refine ⟨_, t3.paint false, before ctx, after ctx, ?_, hs4, isRed_paint_false t3, ?_, hlist, ?_, hbefore, hafter⟩
  · have hbin := rbInsertBinary_eq hs0 hdesc hside
    have htop : (h3 T.root).left = ptr T t3 := hs3.hole_eq
    have hassert : ¬(((setRed h3 (ptr T t3) false) T.nil).red = true ∨
        ((setRed h3 (ptr T t3) false) T.root).red = true) := by
      rw [hs4.nilBlack, show (setRed h3 (ptr T t3) false T.root).red = false from hs4.ctxRep.1]
      simp
    have hfix' : rbInsertFixup T fuel (setRed _ node true) node = some h3 := hfix
    grind [rbInsert]
  · cases hred : t3.isRed with
    | true =>
      obtain ⟨m, hm⟩ := hrb3
      exact ⟨m + 1, hm.paint_false hred⟩
    | false =>
      rw [paint_of_isRed hred]
      exact hrb3
  · rw [toList_paint, hlist3, toList_plug]
    rfl

end UcoreKernel.Rb
