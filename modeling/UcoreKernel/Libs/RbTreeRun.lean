import UcoreKernel.Libs.RbTreeDelete

/-!
What a red-black tree answers, and what holds after every sequence of insertions and deletions.
-/

namespace UcoreKernel.Rb

open RedBlack RedBlack.ColTree ColTree
open List hiding after

variable {T : RbTree} {h : Heap} {ctx : Ctx ℕ} {t l r : ColTree ℕ} {f : Frame ℕ} {a : ℕ}
  {red : Bool} {fuel : ℕ}

/-! ### Neighbours -/

/-- The side of a node is found by comparing it with the right child of its parent. -/
lemma Shape.right_iff (hs : Shape T h (f :: ctx) t) (ht : t ≠ .leaf) :
    ptr T t = (h f.a).right ↔ f.side = .right := by
  have hhole := hs.hole_eq
  have hflip := hs.hole_flip_ne ht
  rw [above, holeSide] at hhole hflip
  rw [right_eq_child]
  cases hside : f.side with
  | left => grind [Side.flip]
  | right =>
    rw [hside] at hhole
    exact iff_of_true hhole.symm rfl

lemma Shape.toNull_of_mem (hs : Shape T h ctx t) (ha : a ∈ t.toList) : toNull T a = some a :=
  if_pos fun hEq : a = T.nil => hs.nil_notMem (hEq ▸ ha)

lemma Shape.frame_ne (hs : Shape T h (f :: ctx) t) : f.a ≠ T.root ∧ f.a ≠ T.nil := by
  have hup := (shape_fill f).mpr hs
  have hm : f.a ∈ (f.fill t).toList := toList_node'_perm.mem_iff.mpr (.head _)
  exact ⟨hup.ne_of_mem hm root_mem, fun hEq => hup.nil_notMem (hEq ▸ hm)⟩

section

variable (hs : Shape T h ctx t) (ht : t ≠ .leaf) (hfuel : ctx.length < fuel)
include hs ht hfuel

/-- Up from a subtree to the first node after it. -/
lemma climbSuccessor_spec : ∃ y, climbSuccessor h fuel (ptr T t) (above T ctx) = some y ∧
      toNull T (if y = T.root then T.nil else y) = (after ctx).head? := by
  induction ctx generalizing t fuel with
  | nil =>
    obtain _ | fuel := fuel
    · omega
    refine ⟨T.root, ?_, by simp [toNull, after]⟩
    have hne : ptr T t ≠ (h T.root).right := (hs.hole_flip_ne ht).symm
    rw [climbSuccessor, above, if_neg hne]
  | cons f ctx ih =>
    obtain _ | fuel := fuel
    · omega
    have hiff := hs.right_iff ht
    rw [length_cons] at hfuel
    rw [climbSuccessor, above]
    split_ifs with hEq
    · rw [hs.ctxRep.1.parent]
      have hside := hiff.mp hEq
      obtain ⟨y, hrun, hhead⟩ := ih ((shape_fill f).mpr hs) node'_ne_leaf (by omega : _ < fuel)
      rw [Frame.fill, ptr_node'] at hrun
      refine ⟨y, hrun, ?_⟩
      rw [hhead]
      obtain ⟨side, red, a, o⟩ := f
      obtain rfl := hside
      rfl
    · obtain ⟨hroot, hnil⟩ := hs.frame_ne
      refine ⟨f.a, rfl, ?_⟩
      rw [if_neg hroot, toNull, if_pos hnil]
      obtain ⟨side, red, a, o⟩ := f
      cases side with
      | left => rfl
      | right => exact absurd (hiff.mpr rfl) hEq

/-- Up from a subtree to the last node before it. -/
lemma climbPredecessor_spec : ∃ y, climbPredecessor T h fuel (ptr T t) (above T ctx) = some y ∧
      toNull T y = (before ctx).getLast? := by
  induction ctx generalizing t fuel with
  | nil =>
    obtain _ | fuel := fuel
    · omega
    refine ⟨T.nil, ?_, by simp [toNull, before]⟩
    have hEq : ptr T t = (h T.root).left := hs.hole_eq.symm
    rw [climbPredecessor, above, if_pos hEq, if_pos rfl]
  | cons f ctx ih =>
    obtain _ | fuel := fuel
    · omega
    have hiff := hs.left_iff ht
    obtain ⟨hroot, hnil⟩ := hs.frame_ne
    rw [length_cons] at hfuel
    rw [climbPredecessor, above]
    by_cases hEq : ptr T t = (h f.a).left
    · rw [if_pos hEq, if_neg hroot, hs.ctxRep.1.parent]
      have hside := hiff.mp hEq
      obtain ⟨y, hrun, hlast⟩ := ih ((shape_fill f).mpr hs) node'_ne_leaf (by omega : _ < fuel)
      rw [Frame.fill, ptr_node'] at hrun
      refine ⟨y, hrun, ?_⟩
      rw [hlast]
      obtain ⟨side, red, a, o⟩ := f
      obtain rfl := hside
      rfl
    · rw [if_neg hEq]
      refine ⟨f.a, rfl, ?_⟩
      rw [toNull, if_pos hnil]
      obtain ⟨side, red, a, o⟩ := f
      cases side with
      | left => exact absurd (hiff.mpr rfl) hEq
      | right => simp [before]

end

variable {l₁ l₂ : List ℕ}

/-- Where a node stands in a walk without repetitions. -/
lemma walk_unique (hnd : (plug ctx (.node red l a r)).toList.Nodup)
    (hsplit : (plug ctx (.node red l a r)).toList = l₁ ++ a :: l₂) :
    l₁ = before ctx ++ l.toList ∧ l₂ = r.toList ++ after ctx := by
  have hlist : (plug ctx (.node red l a r)).toList =
      (before ctx ++ l.toList) ++ a :: (r.toList ++ after ctx) := by
    rw [toList_plug, toList]
    simp
  rw [hsplit] at hlist hnd
  have ha1 : a ∉ l₁ := fun hm => (nodup_append.mp hnd).2.2 a hm a (.head _) rfl
  rw [hlist] at hnd
  have ha2 : a ∉ before ctx ++ l.toList := fun hm =>
    (nodup_append.mp hnd).2.2 a hm a (.head _) rfl
  obtain ⟨hEq, hrest⟩ := append_inj hlist (by
    have h1 : (l₁ ++ a :: l₂).idxOf a = l₁.length := by grind
    grind)
  exact ⟨hEq, (cons.inj hrest).2⟩

section

variable (hs : Shape T h [] t) (hfuel : t.toList.length < fuel) (hsplit : t.toList = l₁ ++ a :: l₂)
include hs hfuel hsplit

/-- `rb_node_next`. -/
lemma rbNodeNext_spec : rbNodeNext T fuel h a = some l₂.head? := by
  have ha : a ∈ t.toList := by
    rw [hsplit]
    simp
  obtain ⟨ctx, red, l, r, rfl⟩ := exists_focus ha
  obtain ⟨-, rfl⟩ := walk_unique hs.nodup_toList hsplit
  have hsa := shape_plug.mp hs
  have hlen := length_ctx_le ctx (.node red l a r)
  have hright : (h a).right = ptr T r := hsa.rep.1.child'
  have hsr : Shape T h (⟨.right, red, a, l⟩ :: ctx) r := (shape_fill ⟨.right, red, a, l⟩).mp hsa
  rw [rbNodeNext, rbTreeSuccessor, hright]
  obtain rfl | hr := eq_or_ne r .leaf
  · obtain ⟨y, hrun, hhead⟩ := climbSuccessor_spec hsa (by simp) (by omega : ctx.length < fuel)
    have hpar : (h a).parent = above T ctx := hsa.rep.1.parent
    rw [ptr, if_neg (not_not.mpr rfl), hpar, show climbSuccessor h fuel a (above T ctx) = some y from hrun]
    exact congrArg some hhead
  · have hrlen : r.toList.length < fuel := by grind
    obtain ⟨path, cy, y, o, rfl, hall, hrun⟩ := descend_spec .left fuel hsr hr hrlen
    rw [if_pos fun hEq => hr (hsr.ptr_eq_nil.mp hEq), hrun]
    have hfirst : (plug path (node' .left cy .leaf y o)).toList = y :: (o.toList ++ after path) := by
      rw [toList_plug, before_eq_nil hall]
      rfl
    refine congrArg some ((hsr.toNull_of_mem ?_).trans ?_)
    · rw [hfirst]
      exact (.head _)
    · rw [hfirst]
      rfl

/-- `rb_node_prev`. -/
lemma rbNodePrev_spec : rbNodePrev T fuel h a = some l₁.getLast? := by
  have ha : a ∈ t.toList := by
    rw [hsplit]
    simp
  obtain ⟨ctx, red, l, r, rfl⟩ := exists_focus ha
  obtain ⟨rfl, -⟩ := walk_unique hs.nodup_toList hsplit
  have hsa := shape_plug.mp hs
  have hlen := length_ctx_le ctx (.node red l a r)
  have hleft : (h a).left = ptr T l := hsa.rep.1.child
  have hsl : Shape T h (⟨.left, red, a, r⟩ :: ctx) l := (shape_fill ⟨.left, red, a, r⟩).mp hsa
  rw [rbNodePrev, rbTreePredecessor, hleft]
  obtain rfl | hl := eq_or_ne l .leaf
  · obtain ⟨y, hrun, hlast⟩ := climbPredecessor_spec hsa (by simp) (by omega : ctx.length < fuel)
    have hpar : (h a).parent = above T ctx := hsa.rep.1.parent
    grind [ptr, toList]
  · have hllen : l.toList.length < fuel := by grind
    obtain ⟨path, cy, y, o, rfl, hall, hrun⟩ := descend_spec .right fuel hsl hl hllen
    rw [if_pos fun hEq => hl (hsl.ptr_eq_nil.mp hEq), hrun]
    have hlast : (plug path (node' .right cy .leaf y o)).toList =
        before path ++ o.toList ++ [y] := by
      rw [toList_plug, after_eq_nil hall]
      simp [node', toList]
    refine congrArg some ((hsl.toNull_of_mem ?_).trans ?_)
    · rw [hlast]
      simp
    · rw [hlast, ← append_assoc, getLast?_concat]

end

/-! ### Search -/

/-- The comparisons with a key agree with the order of the nodes. -/
structure KeyOrder (cmp : ℕ → ℕ → ℤ) (cmpKey : ℕ → ℤ) : Prop where
  above : ∀ a b, cmp a b ≤ 0 → 0 < cmpKey a → 0 < cmpKey b
  below : ∀ a b, cmp a b ≤ 0 → cmpKey b < 0 → cmpKey a < 0

variable {cmp : ℕ → ℕ → ℤ} {cmpKey : ℕ → ℤ}

lemma searchLoop_spec (hkey : KeyOrder cmp cmpKey)
    (hs : Shape T h ctx t) (hsorted : Sorted cmp t.toList) (hfuel : t.toList.length < fuel) :
    ∃ x, searchLoop T cmpKey h fuel (ptr T t) = some x ∧
      ((x = T.nil ∧ ∀ a ∈ t.toList, cmpKey a ≠ 0) ∨ (x ∈ t.toList ∧ cmpKey x = 0)) := by
  induction t generalizing ctx fuel with
  | leaf =>
    obtain _ | fuel := fuel
    · omega
    grind [toList, searchLoop, ptr]
  | node red l a r ihl ihr =>
    obtain _ | fuel := fuel
    · omega
    have hnil : a ≠ T.nil := fun hEq => hs.nil_notMem (by simp [toList, hEq])
    rw [Sorted, toList, pairwise_append, pairwise_cons] at hsorted
    obtain ⟨hsl, ⟨har, hsr⟩, hla⟩ := hsorted
    rw [toList, length_append, length_cons] at hfuel
    simp only [toList, mem_append, mem_cons]
    have hn := hs.rep.1
    rw [searchLoop, ptr]
    obtain hlt | hEq | hgt := lt_trichotomy (cmpKey a) 0
    · rw [if_pos ⟨hnil, hlt.ne⟩, if_neg (not_lt.mpr hlt.le), right_eq_child,
        show (h a).child .right = _ from hn.child']
      obtain ⟨x, hrun, ⟨hx, hnone⟩ | ⟨hx, hzero⟩⟩ :=
        ihr ((shape_fill (⟨.right, red, a, l⟩ : Frame ℕ)).mp hs) hsr (by omega : _ < fuel)
      · refine ⟨x, hrun, .inl ⟨hx, ?_⟩⟩
        rintro b (hb | rfl | hb)
        · exact (hkey.below b a (hla b hb a (.head _)) hlt).ne
        · exact hlt.ne
        · exact hnone b hb
      · grind
    · grind
    · rw [if_pos ⟨hnil, hgt.ne'⟩, if_pos hgt, left_eq_child, hn.child]
      obtain ⟨x, hrun, ⟨hx, hnone⟩ | ⟨hx, hzero⟩⟩ :=
        ihl ((shape_fill (⟨.left, red, a, r⟩ : Frame ℕ)).mp hs) hsl (by omega : _ < fuel)
      · refine ⟨x, hrun, .inl ⟨hx, ?_⟩⟩
        rintro b (hb | rfl | hb)
        · exact hnone b hb
        · exact hgt.ne'
        · exact (hkey.above a b (har b hb) hgt).ne'
      · exact ⟨x, hrun, .inr ⟨.inl hx, hzero⟩⟩

/-- `rb_search`. -/
lemma rbSearch_spec (hkey : KeyOrder cmp cmpKey)
    (hs : Shape T h [] t) (hsorted : Sorted cmp t.toList) (hfuel : t.toList.length < fuel) :
    ∃ res, rbSearch T fuel cmpKey h = some res ∧ (∀ a, res = some a → a ∈ t.toList ∧ cmpKey a = 0) ∧
      (res = none → ∀ a ∈ t.toList, cmpKey a ≠ 0) := by
  obtain ⟨x, hrun, hx⟩ := searchLoop_spec hkey hs hsorted hfuel
  have htop : (h T.root).left = ptr T t := hs.hole_eq
  refine ⟨toNull T x, ?_, ?_⟩
  · rw [rbSearch, htop, hrun]
    rfl
  · obtain ⟨rfl, hnone⟩ | ⟨hx, hzero⟩ := hx
    · grind [toNull]
    · rw [hs.toNull_of_mem hx]
      grind

/-! ### Sequences of operations -/

/-- The memory holds a red-black tree of exactly these nodes, in order. -/
structure TreeInv (T : RbTree) (cmp : ℕ → ℕ → ℤ) (h : Heap) (t : ColTree ℕ) (nodes : List ℕ) :
    Prop where
  shape : Shape T h [] t
  black : t.isRed = false
  rb : ∃ n, Rb t n
  sorted : Sorted cmp t.toList
  perm : t.toList.Perm nodes

/-- `rb_tree_create`. -/
lemma rbTreeCreate_inv (hT : T.nil ≠ T.root) (cmp : ℕ → ℕ → ℤ) (h : Heap) :
    TreeInv T cmp (rbTreeCreate T h) .leaf [] where
  shape :=
    { rep := trivial
      ctxRep := by simp [CtxRep, rbTreeCreate, RbNode.child, ptr]
      nilBlack := by simp [rbTreeCreate, Function.update_of_ne hT]
      nodup := by simp [toList, ctxAddrs, hT] }
  black := rfl
  rb := ⟨0, rfl⟩
  sorted := List.Pairwise.nil
  perm := List.Perm.nil

variable {nodes : List ℕ}

/-- One operation. -/
lemma step_spec (hcmp : TotalPreorder cmp) {op : TreeOp}
    (hinv : TreeInv T cmp h t nodes) (hop : op.Allowed T nodes) (hfuel : nodes.length + 1 < fuel) :
    ∃ h' t', step T fuel cmp h op = some h' ∧ TreeInv T cmp h' t' (op.nodes nodes) := by
  obtain ⟨n, hrb⟩ := hinv.rb
  have hlen := hinv.perm.length_eq
  cases op with
  | insert node =>
    obtain ⟨hnode, hnil, hroot⟩ := hop
    obtain ⟨h', t', l1, l2, hrun, hs', hblack', hrb', hold, hnew, hbefore, hafter⟩ :=
      rbInsert_spec hcmp hinv.shape hinv.black hrb hinv.sorted
        (fun hm => hnode (hinv.perm.mem_iff.mp hm)) hnil hroot
        (by omega : t.toList.length + 1 < fuel)
    refine ⟨h', t', hrun, hs', hblack', hrb', ?_, ?_⟩
    · rw [hnew]
      exact sorted_insert hcmp (hold ▸ hinv.sorted) hbefore hafter
    · rw [hnew]
      exact perm_middle.trans (List.Perm.cons node (hold ▸ hinv.perm))
  | delete node =>
    obtain ⟨h', t', hrun, hs', hblack', hrb', hlist⟩ := rbDelete_spec hinv.shape hinv.black hrb
      (hinv.perm.mem_iff.mpr hop) (by omega : t.toList.length + 1 < fuel)
    refine ⟨h', t', hrun, hs', hblack', hrb', ?_, ?_⟩
    · rw [hlist]
      exact hinv.sorted.sublist erase_sublist
    · rw [hlist]
      exact hinv.perm.erase node

/-- The nodes in the tree after a sequence of operations. -/
def nodesAfter (nodes : List ℕ) (ops : List TreeOp) : List ℕ := ops.foldl TreeOp.nodes nodes

/-- A sequence of operations. -/
lemma run_spec (hcmp : TotalPreorder cmp) (ops : List TreeOp)
    (hinv : TreeInv T cmp h t nodes) (hops : AllAllowed T nodes ops)
    (hfuel : nodes.length + ops.length < fuel) :
    ∃ h' t', run T fuel cmp h ops = some h' ∧ TreeInv T cmp h' t' (nodesAfter nodes ops) ∧
      (nodesAfter nodes ops).length ≤ nodes.length + ops.length := by
  induction ops generalizing h t nodes with
  | nil => exact ⟨h, t, rfl, hinv, le_rfl⟩
  | cons op ops ih =>
    rw [length_cons] at hfuel ⊢
    obtain ⟨h1, t1, hrun1, hinv1⟩ := step_spec hcmp hinv hops.1 (by omega : _ < fuel)
    have hlen : (op.nodes nodes).length ≤ nodes.length + 1 := by
      cases op with
      | insert node => exact le_rfl
      | delete node => exact length_erase_le.trans (Nat.le_succ _)
    obtain ⟨h', t', hrun', hinv', hlen'⟩ := ih hinv1 hops.2 (by omega)
    refine ⟨h', t', ?_, hinv', ?_⟩
    · rw [run, hrun1]
      exact hrun'
    · exact hlen'.trans (by omega)

/-- **Red-black trees.**  For every comparison function that is a total preorder, and every
sequence of insertions of new nodes and deletions of nodes of the tree, with equal keys or not:
the functions return; the memory holds a tree with a black root in which no red node has a red
child and all paths have the same number of black nodes; its in-order walk is sorted and has
exactly the nodes inserted and not deleted; `rb_node_prev` and `rb_node_next` give the neighbours
in that walk; and `rb_search` returns a node with an equal key if there is one, and `NULL` if
not. -/
theorem rb_tree_correct (T : RbTree) (hT : T.nil ≠ T.root) (cmp : ℕ → ℕ → ℤ)
    (hcmp : TotalPreorder cmp) (h₀ : Heap) (ops : List TreeOp) (hops : AllAllowed T [] ops)
    (fuel : ℕ) (hfuel : ops.length < fuel) :
    ∃ h t, run T fuel cmp (rbTreeCreate T h₀) ops = some h ∧ Shape T h [] t ∧
      t.isRed = false ∧ (∃ n, Rb t n) ∧
      Sorted cmp t.toList ∧ t.toList.Perm (nodesAfter [] ops) ∧
      (∀ l₁ a l₂, t.toList = l₁ ++ a :: l₂ →
        rbNodePrev T fuel h a = some l₁.getLast? ∧ rbNodeNext T fuel h a = some l₂.head?) ∧
      ∀ cmpKey, KeyOrder cmp cmpKey → ∃ res, rbSearch T fuel cmpKey h = some res ∧
        (∀ a, res = some a → a ∈ nodesAfter [] ops ∧ cmpKey a = 0) ∧
        (res = none → ∀ a ∈ nodesAfter [] ops, cmpKey a ≠ 0) := by
  obtain ⟨h, t, hrun, hinv, hlen⟩ :=
    run_spec hcmp ops (rbTreeCreate_inv hT cmp h₀) hops (by simpa using hfuel)
  have hsize : t.toList.length < fuel := by
    rw [hinv.perm.length_eq]
    rw [length_nil, zero_add] at hlen
    omega
  refine ⟨h, t, hrun, hinv.shape, hinv.black, hinv.rb, hinv.sorted, hinv.perm, ?_, ?_⟩
  · intro l₁ a l₂ hsplit
    exact ⟨rbNodePrev_spec hinv.shape hsize hsplit, rbNodeNext_spec hinv.shape hsize hsplit⟩
  · intro cmpKey hkey
    obtain ⟨res, hsearch, hsome, hnone⟩ := rbSearch_spec hkey hinv.shape hinv.sorted hsize
    refine ⟨res, hsearch, fun a ha => ?_, fun hn a ha => ?_⟩
    · exact ⟨hinv.perm.mem_iff.mp (hsome a ha).1, (hsome a ha).2⟩
    · exact hnone hn a (hinv.perm.mem_iff.mpr ha)

/-- Nodes `4` and `5` have equal keys. -/
theorem rb_tree_correct_equalKeys : ∃ h t, run ⟨0, 1⟩ 9 (fun a b => (a / 2 : ℕ) - (b / 2 : ℕ))
        (rbTreeCreate ⟨0, 1⟩ fun _ => ⟨false, 0, 0, 0⟩)
        [.insert 4, .insert 5, .insert 2, .insert 9, .delete 4] = some h ∧
      Shape ⟨0, 1⟩ h [] t ∧ t.toList.Perm [9, 2, 5] := by
  obtain ⟨h, t, hrun, hs, -, -, -, hperm, -⟩ := rb_tree_correct ⟨0, 1⟩ (by decide)
    (fun a b => (a / 2 : ℕ) - (b / 2 : ℕ)) ⟨fun a b => by omega, fun a b c => by omega⟩
    (fun _ => ⟨false, 0, 0, 0⟩) [.insert 4, .insert 5, .insert 2, .insert 9, .delete 4]
    (by simp [AllAllowed, TreeOp.Allowed, TreeOp.nodes]) 9 (by decide)
  exact ⟨h, t, hrun, hs, hperm⟩

/-! ### The depth of the tree -/

/-- A search makes two turns for each black node of its path at most, and one more for a red root. -/
lemma exists_searchLoop (cmpKey : ℕ → ℤ) {n : ℕ} (hs : Shape T h ctx t) (hrb : Rb t n) : ∃ x, ∀ turns,
    2 * n + (if t.isRed then 1 else 0) < turns → searchLoop T cmpKey h turns (ptr T t) = some x := by
  induction t generalizing ctx n with
  | leaf =>
    refine ⟨T.nil, fun turns hturns => ?_⟩
    obtain _ | turns := turns
    · omega
    · exact if_neg fun hnil => hnil.1 rfl
  | node red l a r ihl ihr =>
    obtain ⟨hred, m, hl, hr, rfl⟩ := hrb
    obtain ⟨x, hx⟩ := ihl ((shape_fill (⟨.left, red, a, r⟩ : Frame ℕ)).mp hs) hl
    obtain ⟨y, hy⟩ := ihr ((shape_fill (⟨.right, red, a, l⟩ : Frame ℕ)).mp hs) hr
    refine ⟨if a ≠ T.nil ∧ cmpKey a ≠ 0 then if cmpKey a > 0 then x else y else a, fun turns hturns => ?_⟩
    obtain _ | turns := turns
    · omega
    -- the children of a red node are black
    have hless : ∀ c : ColTree ℕ, (red = true → c.isRed = false) → 2 * m + (if c.isRed then 1 else 0) < turns := by
      intro c hc
      cases red <;> grind [isRed, blacks]
    have hn := hs.rep.1
    rw [searchLoop, ptr, left_eq_child, right_eq_child, hn.child, show (h a).child .right = _ from hn.child']
    split_ifs
    · exact hx turns (hless l fun h => (hred h).1)
    · exact hy turns (hless r fun h => (hred h).2)
    · rfl

end UcoreKernel.Rb
