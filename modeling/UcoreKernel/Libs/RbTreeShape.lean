import UcoreKernel.Libs.RbTree

/-!
How linked nodes in memory form a tree.

`Shape T h ctx t` says that the nodes of the memory `h` form the tree `plug ctx t`, and points at
the subtree `t` in it: every node of the tree has the colour, the parent and the children the
tree says, the two sentinels are as they should be, and no address occurs twice. An operation
of the source works on a few nodes around the subtree; `Shape.update` is the rule for it.
-/

namespace UcoreKernel.Rb

open RedBlack RedBlack.ColTree Function List

/-! ### Fields after assignments -/

section Fields

variable (h : Heap) (a b p : ℕ) (d d' : Side) (red : Bool)

@[simp] lemma setRed_red : (setRed h a red b).red = if b = a then red else (h b).red := by
  rw [setRed, update_apply]
  split_ifs <;> rfl

@[simp] lemma setRed_parent : (setRed h a red b).parent = (h b).parent := by
  rw [setRed, update_apply]
  split_ifs with hab
  · rw [hab]
  · rfl

@[simp] lemma setRed_child : (setRed h a red b).child d = (h b).child d := by
  rw [setRed, update_apply]
  split_ifs with hab
  · rw [hab]
    cases d <;> rfl
  · rfl

@[simp] lemma setParent_red : (setParent h a p b).red = (h b).red := by
  rw [setParent, update_apply]
  split_ifs with hab
  · rw [hab]
  · rfl

@[simp] lemma setParent_parent : (setParent h a p b).parent = if b = a then p else (h b).parent := by
  rw [setParent, update_apply]
  split_ifs <;> rfl

@[simp] lemma setParent_child : (setParent h a p b).child d = (h b).child d := by
  rw [setParent, update_apply]
  split_ifs with hab
  · rw [hab]
    cases d <;> rfl
  · rfl

@[simp] lemma setChild_red : (setChild h a d p b).red = (h b).red := by
  rw [setChild, update_apply]
  split_ifs with hab
  · rw [hab]
    cases d <;> rfl
  · rfl

@[simp] lemma setChild_parent : (setChild h a d p b).parent = (h b).parent := by
  rw [setChild, update_apply]
  split_ifs with hab
  · rw [hab]
    cases d <;> rfl
  · rfl

@[simp] lemma setChild_child : (setChild h a d p b).child d' =
    if b = a ∧ d' = d then p else (h b).child d' := by
  rw [setChild, update_apply]
  obtain rfl | hab := eq_or_ne b a
  · cases d <;> cases d' <;> simp [RbNode.child, RbNode.withChild]
  · simp [hab]

lemma setRed_of_ne {h : Heap} {a b : ℕ} {red : Bool} (hne : b ≠ a) : setRed h a red b = h b :=
  update_of_ne hne ..

lemma setParent_of_ne {h : Heap} {a b p : ℕ} (hne : b ≠ a) : setParent h a p b = h b :=
  update_of_ne hne ..

lemma setChild_of_ne {h : Heap} {a b p : ℕ} {d : Side} (hne : b ≠ a) : setChild h a d p b = h b :=
  update_of_ne hne ..

lemma left_eq_child (n : RbNode) : n.left = n.child .left := rfl

lemma right_eq_child (n : RbNode) : n.right = n.child .right := rfl

end Fields

/-! ### Trees in memory -/

variable (T : RbTree)

/-- The address of a tree. -/
def ptr : ColTree ℕ → ℕ
  | .leaf => T.nil
  | .node _ _ a _ => a

/-- The fields of the node at `a`, seen from side `d`. -/
structure NodeAt (h : Heap) (a : ℕ) (d : Side) (red : Bool) (parent s o : ℕ) : Prop where
  red : (h a).red = red
  parent : (h a).parent = parent
  child : (h a).child d = s
  child' : (h a).child d.flip = o

/-- The nodes of `t` are in memory, and the parent of its root is `par`. -/
def Rep (h : Heap) : ColTree ℕ → ℕ → Prop
  | .leaf, _ => True
  | .node red l a r, par => NodeAt h a .left red par (ptr T l) (ptr T r) ∧ Rep h l a ∧ Rep h r a

/-- The node above the hole. -/
def above : Ctx ℕ → ℕ
  | [] => T.root
  | f :: _ => f.a

/-- The side of the hole; the whole tree is the left child of the sentinel. -/
def holeSide : Ctx ℕ → Side
  | [] => .left
  | f :: _ => f.side

/-- The nodes of the context are in memory, and the child in the hole is `p`. -/
def CtxRep (h : Heap) : Ctx ℕ → ℕ → Prop
  | [], p => (h T.root).red = false ∧ (h T.root).child .left = p ∧ (h T.root).child .right = T.nil
  | f :: ctx, p =>
    NodeAt h f.a f.side f.red (above T ctx) p (ptr T f.other) ∧ Rep T h f.other f.a ∧
      CtxRep h ctx f.a

/-- The addresses of the context, with the sentinel at the top. -/
def ctxAddrs : Ctx ℕ → List ℕ
  | [] => [T.root]
  | f :: ctx => f.a :: (f.other.toList ++ ctxAddrs ctx)

/-- The memory holds the tree `plug ctx t`. -/
structure Shape (h : Heap) (ctx : Ctx ℕ) (t : ColTree ℕ) : Prop where
  rep : Rep T h t (above T ctx)
  ctxRep : CtxRep T h ctx (ptr T t)
  nilBlack : (h T.nil).red = false
  nodup : (T.nil :: (t.toList ++ ctxAddrs T ctx)).Nodup

variable {T} {h h' : Heap} {ctx : Ctx ℕ} {t t' s o : ColTree ℕ} {d : Side} {red : Bool}
  {a p par : ℕ}

@[simp] lemma ptr_node' : ptr T (node' d red s a o) = a := by cases d <;> rfl

lemma NodeAt.flip {x y : ℕ} (hn : NodeAt h a d red par x y) : NodeAt h a d.flip red par y x :=
  ⟨hn.red, hn.parent, hn.child', by rw [Side.flip_flip]; exact hn.child⟩

lemma nodeAt_congr {x y : ℕ} (hn : NodeAt h a d red par x y) (ha : h' a = h a) : NodeAt h' a d red par x y :=
  ⟨by rw [ha, hn.red], by rw [ha, hn.parent], by rw [ha, hn.child], by rw [ha, hn.child']⟩

lemma rep_node' : Rep T h (node' d red s a o) par ↔
    NodeAt h a d red par (ptr T s) (ptr T o) ∧ Rep T h s a ∧ Rep T h o a := by
  cases d with
  | left => rfl
  | right => exact ⟨fun hr => ⟨hr.1.flip, hr.2.2, hr.2.1⟩, fun hr => ⟨hr.1.flip, hr.2.2, hr.2.1⟩⟩

lemma toList_node'_perm : (node' d red s a o).toList.Perm (a :: (s.toList ++ o.toList)) := by
  cases d with
  | left => exact perm_middle
  | right => exact perm_middle.trans ((perm_append_comm).cons a)

lemma ptr_mem (ht : t ≠ .leaf) : ptr T t ∈ t.toList := by
  cases t with
  | leaf => exact absurd rfl ht
  | node red l a r => simp [ptr, ColTree.toList]

lemma ptr_ne_of_notMem (hb : b ≠ T.nil) (hnot : b ∉ t.toList) : ptr T t ≠ b := by
  by_cases ht : t = .leaf
  · rw [ht]
    exact hb.symm
  · exact fun hEq => hnot (hEq ▸ ptr_mem ht)

/-- A tree in memory stays there when its nodes do not change. -/
lemma Rep.congr (hr : Rep T h t par) (hsame : ∀ b ∈ t.toList, h' b = h b) : Rep T h' t par := by
  induction t generalizing par with
  | leaf => trivial
  | node red l a r ihl ihr =>
    simp only [ColTree.toList, mem_append, mem_cons] at hsame
    exact ⟨nodeAt_congr hr.1 (hsame a (.inr (.inl rfl))), ihl hr.2.1 fun b hb => hsame b (.inl hb),
      ihr hr.2.2 fun b hb => hsame b (.inr (.inr hb))⟩

/-- A tree in memory gets another parent. -/
lemma Rep.reparent {par' : ℕ} (hr : Rep T h t par) (hnd : t.toList.Nodup)
    (hroot : t ≠ .leaf → (h' (ptr T t)) = { h (ptr T t) with parent := par' })
    (hsame : ∀ b ∈ t.toList, b ≠ ptr T t → h' b = h b) : Rep T h' t par' := by
  cases t with
  | leaf => trivial
  | node red l a r =>
    have ha := hroot (by simp)
    rw [ptr] at ha hsame
    rw [ColTree.toList, nodup_append, nodup_cons] at hnd
    simp only [ColTree.toList, mem_append, mem_cons] at hsame
    refine ⟨⟨by rw [ha]; exact hr.1.red, by rw [ha], by rw [ha]; exact hr.1.child,
      by rw [ha]; exact hr.1.child'⟩, hr.2.1.congr fun b hb => hsame b (.inl hb) ?_,
      hr.2.2.congr fun b hb => hsame b (.inr (.inr hb)) ?_⟩
    · exact hnd.2.2 b hb a (.head _)
    · rintro rfl
      exact hnd.2.1.1 hb

lemma above_mem : above T ctx ∈ ctxAddrs T ctx := by
  cases ctx with
  | nil => exact mem_singleton_self _
  | cons f ctx => exact (.head _)

/-- A context in memory stays there when its nodes do not change. -/
lemma CtxRep.congr (hc : CtxRep T h ctx p) (hsame : ∀ b ∈ ctxAddrs T ctx, h' b = h b) : CtxRep T h' ctx p := by
  induction ctx generalizing p with
  | nil =>
    rw [CtxRep, hsame _ (mem_singleton_self _)]
    exact hc
  | cons f ctx ih =>
    simp only [ctxAddrs, mem_cons, mem_append] at hsame
    exact ⟨nodeAt_congr hc.1 (hsame _ (.inl rfl)), hc.2.1.congr fun b hb => hsame b (.inr (.inl hb)),
      ih hc.2.2 fun b hb => hsame b (.inr (.inr hb))⟩

/-- The context in memory, with another child in its hole. -/
lemma CtxRep.setHole (hc : CtxRep T h ctx p) (hnd : (ctxAddrs T ctx).Nodup) {p' : ℕ}
    (hred : (h' (above T ctx)).red = (h (above T ctx)).red)
    (hpar : (h' (above T ctx)).parent = (h (above T ctx)).parent)
    (hhole : (h' (above T ctx)).child (holeSide ctx) = p')
    (hother : (h' (above T ctx)).child (holeSide ctx).flip = (h (above T ctx)).child (holeSide ctx).flip)
    (hsame : ∀ b ∈ ctxAddrs T ctx, b ≠ above T ctx → h' b = h b) : CtxRep T h' ctx p' := by
  cases ctx with
  | nil =>
    obtain ⟨hr, -, hright⟩ := hc
    exact ⟨hred.trans hr, hhole, hother.trans hright⟩
  | cons f ctx =>
    obtain ⟨hn, hrep, hrest⟩ := hc
    simp only [above, holeSide] at hred hpar hhole hother hsame
    rw [ctxAddrs, nodup_cons] at hnd
    have hsame' : ∀ b ∈ f.other.toList ++ ctxAddrs T ctx, h' b = h b := fun b hb =>
      hsame b (.tail _ hb) fun hEq => hnd.1 (hEq ▸ hb)
    refine ⟨⟨hred.trans hn.red, hpar.trans hn.parent, hhole, hother.trans hn.child'⟩,
      hrep.congr fun b hb => hsame' b (mem_append_left _ hb),
      hrest.congr fun b hb => hsame' b (mem_append_right _ hb)⟩

/-! ### The focus -/

lemma fill_perm (f : Frame ℕ) :
    ((f.fill t).toList ++ ctxAddrs T ctx).Perm (t.toList ++ ctxAddrs T (f :: ctx)) := by
  rw [Frame.fill, ctxAddrs]
  refine (toList_node'_perm.append_right _).trans ?_
  grind

/-- The focus moves between a subtree and its parent. -/
lemma shape_fill (f : Frame ℕ) : Shape T h ctx (f.fill t) ↔ Shape T h (f :: ctx) t := by
  refine ⟨fun hs => ?_, fun hs => ?_⟩
  · obtain ⟨hn, ht, ho⟩ := rep_node'.mp hs.rep
    have hc := hs.ctxRep
    rw [Frame.fill, ptr_node'] at hc
    exact ⟨ht, ⟨hn, ho, hc⟩, hs.nilBlack, (List.Perm.cons _ (fill_perm f)).nodup_iff.mp hs.nodup⟩
  · obtain ⟨hn, ho, hc⟩ := hs.ctxRep
    refine ⟨rep_node'.mpr ⟨hn, hs.rep, ho⟩, ?_, hs.nilBlack, (List.Perm.cons _ (fill_perm f)).nodup_iff.mpr hs.nodup⟩
    rw [Frame.fill, ptr_node']
    exact hc

/-- The focus moves to the child on side `d`. -/
lemma shape_child : Shape T h ctx (node' d red s a o) ↔ Shape T h (⟨d, red, a, o⟩ :: ctx) s :=
  shape_fill ⟨d, red, a, o⟩

/-- The focus moves to the other child. -/
lemma shape_child' : Shape T h ctx (node' d red s a o) ↔ Shape T h (⟨d.flip, red, a, s⟩ :: ctx) o := by
  rw [← node'_flip]
  exact shape_child

/-- The focus moves to the root. -/
lemma shape_plug : Shape T h [] (plug ctx t) ↔ Shape T h ctx t := by
  induction ctx generalizing t with
  | nil => rfl
  | cons f ctx ih => exact ih.trans (shape_fill f)

namespace Shape

variable (hs : Shape T h ctx t)
include hs

lemma nil_notMem : T.nil ∉ t.toList :=
  fun hm => hs.nodup.notMem (mem_append_left _ hm)

lemma nil_notMem_ctx : T.nil ∉ ctxAddrs T ctx :=
  fun hm => hs.nodup.notMem (mem_append_right _ hm)

lemma nodup_toList : t.toList.Nodup :=
  (nodup_append.mp hs.nodup.of_cons).1

lemma nodup_ctx : (ctxAddrs T ctx).Nodup :=
  (nodup_append.mp hs.nodup.of_cons).2.1

/-- The nodes of the subtree are not those of the context. -/
lemma ne_of_mem {b c : ℕ} (hb : b ∈ t.toList) (hc : c ∈ ctxAddrs T ctx) : b ≠ c :=
  (nodup_append.mp hs.nodup.of_cons).2.2 b hb c hc

lemma above_ne_nil : above T ctx ≠ T.nil :=
  fun hEq => hs.nil_notMem_ctx (hEq ▸ above_mem)

lemma ptr_eq_nil : ptr T t = T.nil ↔ t = .leaf := by
  refine ⟨fun hEq => ?_, fun hEq => by rw [hEq, ptr]⟩
  by_contra hne
  exact hs.nil_notMem (hEq ▸ ptr_mem hne)

/-- The colour in memory. -/
lemma red_eq : (h (ptr T t)).red = t.isRed := by
  cases t with
  | leaf => exact hs.nilBlack
  | node red l a r => exact hs.rep.1.red

lemma parent_eq (ht : t ≠ .leaf) : (h (ptr T t)).parent = above T ctx := by
  cases t with
  | leaf => exact absurd rfl ht
  | node red l a r => exact hs.rep.1.parent

/-- The node above the hole has the subtree as its child. -/
lemma hole_eq : (h (above T ctx)).child (holeSide ctx) = ptr T t := by
  cases ctx with
  | nil => exact hs.ctxRep.2.1
  | cons f ctx => exact hs.ctxRep.1.child

/-- Its other child is another node, or there is none. -/
lemma hole_flip_ne (ht : t ≠ .leaf) : (h (above T ctx)).child (holeSide ctx).flip ≠ ptr T t := by
  intro hEq
  cases ctx with
  | nil =>
    have hnil : T.nil = ptr T t := hs.ctxRep.2.2.symm.trans hEq
    exact ht (hs.ptr_eq_nil.mp hnil.symm)
  | cons f ctx =>
    replace hEq : ptr T f.other = ptr T t := hs.ctxRep.1.child'.symm.trans hEq
    by_cases ho : f.other = .leaf
    · rw [ho] at hEq
      exact ht (hs.ptr_eq_nil.mp hEq.symm)
    · have hm : ptr T f.other ∈ ctxAddrs T (f :: ctx) :=
        .tail _ (mem_append_left _ (ptr_mem ho))
      exact hs.ne_of_mem (ptr_mem ht) hm hEq.symm

/-- Memory outside the tree does not matter. -/
lemma congr (hnil : h' T.nil = h T.nil)
    (hsame : ∀ b ∈ t.toList ++ ctxAddrs T ctx, h' b = h b) : Shape T h' ctx t :=
  ⟨hs.rep.congr fun b hb => hsame b (mem_append_left _ hb),
    hs.ctxRep.congr fun b hb => hsame b (mem_append_right _ hb),
    by rw [hnil]; exact hs.nilBlack, hs.nodup⟩

/-- The rule for a change around the focus: the context keeps its nodes, but for the child above
the focus, and the new subtree is in memory. -/
lemma update (hperm : t'.toList.Perm t.toList)
    (hrep : Rep T h' t' (above T ctx)) (hnil : (h' T.nil).red = false)
    (hred : (h' (above T ctx)).red = (h (above T ctx)).red)
    (hpar : (h' (above T ctx)).parent = (h (above T ctx)).parent)
    (hhole : (h' (above T ctx)).child (holeSide ctx) = ptr T t')
    (hother : (h' (above T ctx)).child (holeSide ctx).flip = (h (above T ctx)).child (holeSide ctx).flip)
    (hsame : ∀ b ∈ ctxAddrs T ctx, b ≠ above T ctx → h' b = h b) : Shape T h' ctx t' :=
  ⟨hrep, hs.ctxRep.setHole hs.nodup_ctx hred hpar hhole hother hsame, hnil,
    (List.Perm.cons _ (hperm.append_right _)).nodup_iff.mpr hs.nodup⟩

end Shape

/-! ### Colours -/

/-- The root of the subtree is painted. -/
lemma Shape.paint (hs : Shape T h ctx t) (c : Bool) (ht : t ≠ .leaf ∨ c = false) :
    Shape T (setRed h (ptr T t) c) ctx (t.paint c) := by
  cases t with
  | leaf =>
    obtain rfl := ht.resolve_left fun hne => hne rfl
    show Shape T (setRed h T.nil false) ctx .leaf
    refine hs.update (by rfl) trivial (by simp) ?_ (by simp) ?_ (by simp) ?_
    · simp [hs.above_ne_nil]
    · rw [setRed_child]
      exact hs.hole_eq
    · exact fun b hb _ => setRed_of_ne fun hEq => hs.nil_notMem_ctx (hEq ▸ hb)
  | node red l a r =>
    have hmem : a ∈ (ColTree.node red l a r).toList := by simp [ColTree.toList]
    have hne : ∀ b ∈ ctxAddrs T ctx, b ≠ a := fun b hb => (hs.ne_of_mem hmem hb).symm
    have hnd := hs.nodup_toList
    rw [ColTree.toList, nodup_append, nodup_cons] at hnd
    obtain ⟨hn, hl, hr⟩ := hs.rep
    show Shape T (setRed h a c) ctx (.node c l a r)
    refine hs.update (by rfl) ⟨⟨by simp, ?_, ?_, ?_⟩, ?_, ?_⟩ ?_ ?_ (by simp) ?_ (by simp) ?_
    · rw [setRed_parent, hn.parent]
    · rw [setRed_child, hn.child]
    · rw [setRed_child, hn.child']
    · exact hl.congr fun b hb => setRed_of_ne (hnd.2.2 b hb a (.head _))
    · exact hr.congr fun b hb => setRed_of_ne fun hEq => hnd.2.1.1 (hEq ▸ hb)
    · rw [setRed_of_ne fun hEq : T.nil = a => hs.nil_notMem (hEq ▸ hmem)]
      exact hs.nilBlack
    · rw [setRed_of_ne (hne _ above_mem)]
    · rw [setRed_child]
      exact hs.hole_eq
    · exact fun b hb _ => setRed_of_ne (hne b hb)

/-! ### Rotations -/

/-- The memory after a rotation: `e` is the side of `par` on which `x` was. -/
def rotated (T : RbTree) (d e : Side) (h : Heap) (x y b par : ℕ) : Heap :=
  let h₁ := setChild h x d.flip b
  let h₂ := if b ≠ T.nil then setParent h₁ b x else h₁
  setParent (setChild (setChild (setParent h₂ y par) par e y) y d x) x y

/-- The assertions of a rotation hold, and it computes `rotated`. -/
lemma rbRotate_eq {e : Side} {x y b : ℕ} (hy : (h x).child d.flip = y) (hb : (h y).child d = b)
    (hpar : (h x).parent = par) (hxr : x ≠ T.root) (hxn : x ≠ T.nil) (hyn : y ≠ T.nil)
    (hxy : y ≠ x) (hbx : x ≠ b) (hxp : par ≠ x) (hhole : (h par).child e = x)
    (hflip : (h par).child e.flip ≠ x) (hnil : (h T.nil).red = false) :
    rbRotate T d h x = some (rotated T d e h x y b par) := by
  have hside : ∀ h3, (if x = (h par).child d then setChild h3 par d y else setChild h3 par d.flip y) =
        setChild h3 par e y := by
    intro h3
    by_cases hde : d = e
    · rw [hde, hhole, if_pos rfl]
    · obtain rfl : e = d.flip := by cases d <;> cases e <;> simp_all [Side.flip]
      grind [Side.flip_flip]
  rw [rbRotate, hy, if_pos ⟨hxr, hxn, hyn⟩, rotated, hb]
  by_cases hbn : b = T.nil
  · simp [hbn, hxy, hb, hpar, hxy.symm, hxp, hside, hnil]
  · simp [hbn, hxy, hb, hpar, hxy.symm, hxp, hbx, hside, hnil]

section Rotated

variable {e : Side} {x y b : ℕ}

/-- Everywhere else the memory is unchanged. -/
lemma rotated_of_ne {c : ℕ} (hx : c ≠ x) (hy : c ≠ y) (hpar : c ≠ par)
    (hb : c ≠ b ∨ b = T.nil) : rotated T d e h x y b par c = h c := by
  rw [rotated, setParent_of_ne hx, setChild_of_ne hy, setChild_of_ne hpar, setParent_of_ne hy]
  split_ifs with hbn
  · rw [setParent_of_ne (hb.resolve_right hbn), setChild_of_ne hx]
  · rw [setChild_of_ne hx]

lemma rotated_x {cx : Bool} {s : ℕ} (hn : NodeAt h x d cx par s y) (hxy : x ≠ y) (hxp : x ≠ par) :
    NodeAt (rotated T d e h x y b par) x d cx y s b := by
  have hd : d.flip ≠ d := d.flip_ne
  refine ⟨?_, ?_, ?_, ?_⟩
  · by_cases hbn : b = T.nil <;> simp [rotated, hbn, hn.red]
  · simp [rotated]
  · by_cases hbn : b = T.nil <;> simp [rotated, hbn, hxy, hxp, hd.symm, hn.child]
  · by_cases hbn : b = T.nil <;> simp [rotated, hbn, hxy, hxp]

lemma rotated_y {cy : Bool} {o : ℕ} (hn : NodeAt h y d cy x b o) (hxy : x ≠ y) (hyp : y ≠ par) :
    NodeAt (rotated T d e h x y b par) y d cy par x o := by
  have hd : d.flip ≠ d := d.flip_ne
  refine ⟨?_, ?_, ?_, ?_⟩
  · by_cases hbn : b = T.nil <;> simp [rotated, hbn, hn.red]
  · simp [rotated, hxy.symm]
  · simp [rotated]
  · by_cases hbn : b = T.nil <;> simp [rotated, hbn, hxy.symm, hyp, hd, hn.child']

lemma rotated_b (hbn : b ≠ T.nil) (hbx : b ≠ x) (hby : b ≠ y) (hbp : b ≠ par) :
    rotated T d e h x y b par b = { h b with parent := x } := by
  rw [rotated, setParent_of_ne hbx, setChild_of_ne hby, setChild_of_ne hbp, setParent_of_ne hby,
    if_pos hbn, setParent, update_self, setChild_of_ne hbx]

lemma rotated_par (hpx : par ≠ x) (hpy : par ≠ y) (hbp : b ≠ par) :
    rotated T d e h x y b par par = (h par).withChild e y := by
  rw [rotated, setParent_of_ne hpx, setChild_of_ne hpy, setChild, update_self, setParent_of_ne hpy]
  split_ifs
  · rw [setParent_of_ne hbp.symm, setChild_of_ne hpx]
  · rw [setChild_of_ne hpx]

end Rotated

/-- The addresses of the whole tree, seen from the focus. -/
lemma plug_perm (ctx : Ctx ℕ) (t : ColTree ℕ) :
    (T.root :: (plug ctx t).toList).Perm (t.toList ++ ctxAddrs T ctx) := by
  induction ctx generalizing t with
  | nil => exact (perm_append_singleton T.root t.toList).symm
  | cons f ctx ih => exact (ih (f.fill t)).trans (fill_perm f)

lemma root_mem : T.root ∈ ctxAddrs T ctx := by
  induction ctx with
  | nil => exact mem_singleton_self _
  | cons f ctx ih => exact .tail _ (mem_append_right _ ih)

/-- A rotation at `x`; the sentinel stays as it is. -/
lemma rbRotate_spec {A B C : ColTree ℕ} {x y : ℕ} {cx cy : Bool}
    (hs : Shape T h ctx (node' d cx A x (node' d cy B y C))) : ∃ h', rbRotate T d h x = some h' ∧
      Shape T h' ctx (node' d cy (node' d cx A x B) y C) ∧ h' T.nil = h T.nil := by
  have hperm : (node' d cx A x (node' d cy B y C)).toList.Perm
      (x :: (A.toList ++ y :: (B.toList ++ C.toList))) :=
    toList_node'_perm.trans ((toList_node'_perm.append_left _).cons x)
  have hmem : ∀ {b}, b ∈ (node' d cx A x (node' d cy B y C)).toList ↔
      b = x ∨ b ∈ A.toList ∨ b = y ∨ b ∈ B.toList ∨ b ∈ C.toList := by
    intro b
    rw [hperm.mem_iff]
    simp
  have hnd := hperm.nodup_iff.mp hs.nodup_toList
  simp only [nodup_cons, nodup_append, mem_append, mem_cons, not_or] at hnd
  obtain ⟨⟨hxA, hxy, hxB, hxC⟩, -, ⟨⟨hyB, hyC⟩, hBnd, -, hBC⟩, hA⟩ := hnd
  have hnil : ∀ {b}, b ∈ (node' d cx A x (node' d cy B y C)).toList → b ≠ T.nil :=
    fun hb hEq => hs.nil_notMem (hEq ▸ hb)
  have hctx : ∀ {b}, b ∈ (node' d cx A x (node' d cy B y C)).toList → ∀ c ∈ ctxAddrs T ctx, c ≠ b :=
    fun hb c hc => (hs.ne_of_mem hb hc).symm
  have hx := hmem.mpr (.inl rfl)
  have hy : y ∈ _ := hmem.mpr (.inr (.inr (.inl rfl)))
  obtain ⟨hnx, hrA, hry⟩ := rep_node'.mp hs.rep
  obtain ⟨hny, hrB, hrC⟩ := rep_node'.mp hry
  rw [ptr_node'] at hnx
  have hbx : ptr T B ≠ x := ptr_ne_of_notMem (hnil hx) hxB
  have hby : ptr T B ≠ y := ptr_ne_of_notMem (hnil hy) hyB
  have hbp : ptr T B ≠ above T ctx := ptr_ne_of_notMem hs.above_ne_nil (by grind [above_mem])
  have hpx : above T ctx ≠ x := hctx hx _ above_mem
  have hpy : above T ctx ≠ y := hctx hy _ above_mem
  have hrun := rbRotate_eq hnx.child' hny.child hnx.parent
    (hctx hx _ root_mem).symm (hnil hx) (hnil hy) (Ne.symm hxy) hbx.symm hpx
    (by simpa using hs.hole_eq) (by simpa using hs.hole_flip_ne node'_ne_leaf) hs.nilBlack
  have hrest : ∀ c, c ≠ x → c ≠ y → c ≠ above T ctx → c ≠ ptr T B ∨ ptr T B = T.nil →
      rotated T d (holeSide ctx) h x y (ptr T B) (above T ctx) c = h c :=
    fun c => rotated_of_ne
  have hpar := rotated_par (T := T) (d := d) (e := holeSide ctx) (h := h) hpx hpy hbp
  have hin : ∀ {c}, c ∈ (node' d cx A x (node' d cy B y C)).toList → c ≠ above T ctx :=
    fun hc => hs.ne_of_mem hc above_mem
  have hbnil : B ≠ .leaf → ptr T B ≠ T.nil :=
    fun hB => hnil (hmem.mpr (.inr (.inr (.inr (.inl (ptr_mem hB))))))
  have hbne : ∀ {c}, (B ≠ .leaf → c ≠ ptr T B) → c ≠ ptr T B ∨ ptr T B = T.nil := by
    intro c hc
    by_cases hB : B = .leaf
    · exact .inr (by rw [hB, ptr])
    · exact .inl (hc hB)
  have hsame := hrest T.nil (hnil hx).symm (hnil hy).symm hs.above_ne_nil.symm (hbne fun hB => (hbnil hB).symm)
  refine ⟨_, hrun, hs.update ?_ ?_ ?_ ?_ ?_ ?_ ?_ ?_, hsame⟩
  · rw [toList_rotate]
  · refine rep_node'.mpr ⟨?_, rep_node'.mpr ⟨?_, ?_, ?_⟩, ?_⟩
    · rw [ptr_node']
      exact rotated_y hny hxy hpy.symm
    · exact rotated_x hnx hxy hpx.symm
    · refine hrA.congr fun c hc => hrest c ?_ ?_ (hin (hmem.mpr (.inr (.inl hc)))) ?_
      · exact fun hEq => hxA (hEq ▸ hc)
      · exact hA c hc y (.inl rfl)
      · grind [ptr_mem]
    · refine hrB.reparent hBnd (fun hB => ?_) fun c hc _ => ?_
      · exact rotated_b (hbnil hB) hbx hby hbp
      · grind
    · refine hrC.congr fun c hc => hrest c (fun hEq => hxC (hEq ▸ hc)) (fun hEq => hyC (hEq ▸ hc))
        (hin (hmem.mpr (.inr (.inr (.inr (.inr hc)))))) ?_
      exact hbne fun hB hEq => hBC _ (ptr_mem hB) c hc hEq.symm
  · rw [hsame]
    exact hs.nilBlack
  · rw [hpar]
    cases holeSide ctx <;> rfl
  · rw [hpar]
    cases holeSide ctx <;> rfl
  · rw [hpar, ptr_node']
    cases holeSide ctx <;> rfl
  · rw [hpar]
    cases holeSide ctx <;> rfl
  · grind [ptr_mem]

end UcoreKernel.Rb
