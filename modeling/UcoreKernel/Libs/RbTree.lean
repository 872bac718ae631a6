import UcoreKernel.Lib.RedBlack

/-!
`kern-ucore/libs/rb_tree.c`: red-black trees made of linked nodes.

A node is named by its address, and the memory gives the fields of each node. The functions
that the source defines twice by a macro, for `left, right` and for `right, left`, take the side
as an argument. A function returns `none` where an assertion fails, and where a loop has not
ended after `fuel` turns.
-/

namespace UcoreKernel.Rb

open Function

open RedBlack (Side)

/-- `struct rb_node`. -/
structure RbNode where
  red : Bool
  parent : ℕ
  left : ℕ
  right : ℕ
  deriving DecidableEq, Repr

/-- The child of a node on a side. -/
def RbNode.child (n : RbNode) : Side → ℕ
  | .left => n.left
  | .right => n.right

/-- The node with another child on a side. -/
def RbNode.withChild (n : RbNode) (d : Side) (p : ℕ) : RbNode :=
  match d with
  | .left => { n with left := p }
  | .right => { n with right := p }

/-- The nodes in memory. -/
abbrev Heap := ℕ → RbNode

/-- The sentinels of `struct rb_tree`: `nil` stands for every missing child, and the left child
of `root` is the topmost node. -/
structure RbTree where
  nil : ℕ
  root : ℕ
  deriving DecidableEq, Repr

/-- An assignment to `red`. -/
def setRed (h : Heap) (a : ℕ) (red : Bool) : Heap :=
  update h a { h a with red := red }

/-- An assignment to `parent`. -/
def setParent (h : Heap) (a p : ℕ) : Heap :=
  update h a { h a with parent := p }

/-- An assignment to a child. -/
def setChild (h : Heap) (a : ℕ) (d : Side) (p : ℕ) : Heap :=
  update h a ((h a).withChild d p)

/-- `rb_tree_create`, when `kmalloc` has returned `nil` and `root`. -/
def rbTreeCreate (T : RbTree) (h : Heap) : Heap :=
  let h := update h T.nil ⟨false, T.nil, T.nil, T.nil⟩
  update h T.root ⟨false, T.nil, T.nil, T.nil⟩

variable (T : RbTree)

/-- `rb_left_rotate` and `rb_right_rotate`; `d` is `_left`. -/
def rbRotate (d : Side) (h : Heap) (x : ℕ) : Option Heap :=
  let y := (h x).child d.flip
  if x ≠ T.root ∧ x ≠ T.nil ∧ y ≠ T.nil then
    let h := setChild h x d.flip ((h y).child d)
    let h := if (h y).child d ≠ T.nil then setParent h ((h y).child d) x else h
    let h := setParent h y (h x).parent
    let h := if x = (h (h x).parent).child d then setChild h (h x).parent d y
      else setChild h (h x).parent d.flip y
    let h := setChild h y d x
    let h := setParent h x y
    if (h T.nil).red then none else some h
  else none

/-! ### `rb_insert` -/

/-- The loop of `rb_insert_binary`: the node below which the new one goes. -/
def insertDescend (cmp : ℕ → ℕ → ℤ) (h : Heap) (node : ℕ) : ℕ → ℕ → ℕ → Option ℕ
  | 0, _, _ => none
  | fuel + 1, y, x =>
    if x = T.nil then some y
    else insertDescend cmp h node fuel x (if cmp x node > 0 then (h x).left else (h x).right)

/-- `rb_insert_binary`. -/
def rbInsertBinary (fuel : ℕ) (cmp : ℕ → ℕ → ℤ) (h : Heap) (node : ℕ) : Option Heap := do
  let h := setChild (setChild h node .right T.nil) node .left T.nil
  let y ← insertDescend T cmp h node fuel T.root (h T.root).left
  let h := setParent h node y
  if y = T.root ∨ cmp y node > 0 then return setChild h y .left node
  else return setChild h y .right node

/-- The part `if (x == x->parent->_right)` of `RB_INSERT_SUB`; returns the memory and the new
`x`. -/
def rbInsertInner (d : Side) (h : Heap) (x : ℕ) : Option (Heap × ℕ) :=
  if x = (h (h x).parent).child d.flip then do
    let h' ← rbRotate T d h (h x).parent
    return (h', (h x).parent)
  else some (h, x)

/-- `RB_INSERT_SUB`; returns the memory and the new `x`. -/
def rbInsertSub (d : Side) (h : Heap) (x : ℕ) : Option (Heap × ℕ) :=
  let y := (h (h (h x).parent).parent).child d.flip
  if (h y).red then
    let h := setRed h (h x).parent false
    let h := setRed h y false
    let h := setRed h (h (h x).parent).parent true
    some (h, (h (h x).parent).parent)
  else do
    let r ← rbInsertInner T d h x
    let h := setRed r.1 (r.1 r.2).parent false
    let h := setRed h (h (h r.2).parent).parent true
    let h ← rbRotate T d.flip h (h (h r.2).parent).parent
    return (h, r.2)

/-- The body of `while (x->parent->red)`. -/
def rbInsertTurn (h : Heap) (x : ℕ) : Option (Heap × ℕ) :=
  if (h x).parent = (h (h (h x).parent).parent).left then rbInsertSub T .left h x
  else rbInsertSub T .right h x

/-- `while (x->parent->red)`. -/
def rbInsertFixup : ℕ → Heap → ℕ → Option Heap
  | 0, _, _ => none
  | fuel + 1, h, x =>
    if (h (h x).parent).red then do
      let r ← rbInsertTurn T h x
      rbInsertFixup fuel r.1 r.2
    else some h

/-- `rb_insert`. -/
def rbInsert (fuel : ℕ) (cmp : ℕ → ℕ → ℤ) (h : Heap) (node : ℕ) : Option Heap := do
  let h ← rbInsertBinary T fuel cmp h node
  let h := setRed h node true
  let h ← rbInsertFixup T fuel h node
  let h := setRed h (h T.root).left false
  if (h T.nil).red ∨ (h T.root).red then none else return h

/-! ### Neighbours and search -/

/-- Down on one side as far as there are nodes: `while (y->left != nil)` and its mirror image. -/
def descend (d : Side) (h : Heap) : ℕ → ℕ → Option ℕ
  | 0, _ => none
  | fuel + 1, y => if (h y).child d ≠ T.nil then descend d h fuel ((h y).child d) else some y

/-- `while (x == y->right)` of `rb_tree_successor`. -/
def climbSuccessor (h : Heap) : ℕ → ℕ → ℕ → Option ℕ
  | 0, _, _ => none
  | fuel + 1, x, y => if x = (h y).right then climbSuccessor h fuel y (h y).parent else some y

/-- `rb_tree_successor`. -/
def rbTreeSuccessor (fuel : ℕ) (h : Heap) (node : ℕ) : Option ℕ :=
  if (h node).right ≠ T.nil then descend T .left h fuel (h node).right
  else do
    let y ← climbSuccessor h fuel node (h node).parent
    return if y = T.root then T.nil else y

/-- `while (x == y->left)` of `rb_tree_predecessor`, with the return inside it. -/
def climbPredecessor (h : Heap) : ℕ → ℕ → ℕ → Option ℕ
  | 0, _, _ => none
  | fuel + 1, x, y =>
    if x = (h y).left then
      if y = T.root then some T.nil else climbPredecessor h fuel y (h y).parent
    else some y

/-- `rb_tree_predecessor`. -/
def rbTreePredecessor (fuel : ℕ) (h : Heap) (node : ℕ) : Option ℕ :=
  if (h node).left ≠ T.nil then descend T .right h fuel (h node).left
  else climbPredecessor T h fuel node (h node).parent

/-- A pointer that is `NULL` where it is `nil`. -/
def toNull (a : ℕ) : Option ℕ := if a ≠ T.nil then some a else none

/-- `rb_node_prev`. -/
def rbNodePrev (fuel : ℕ) (h : Heap) (node : ℕ) : Option (Option ℕ) := do
  let prev ← rbTreePredecessor T fuel h node
  return toNull T prev

/-- `rb_node_next`. -/
def rbNodeNext (fuel : ℕ) (h : Heap) (node : ℕ) : Option (Option ℕ) := do
  let next ← rbTreeSuccessor T fuel h node
  return toNull T next

/-- `rb_node_root`. -/
def rbNodeRoot (h : Heap) : Option ℕ := toNull T (h T.root).left

/-- `rb_node_left`. -/
def rbNodeLeft (h : Heap) (node : ℕ) : Option ℕ := toNull T (h node).left

/-- `rb_node_right`. -/
def rbNodeRight (h : Heap) (node : ℕ) : Option ℕ := toNull T (h node).right

/-- The loop of `rb_search`; `cmpKey` is `compare` with the key it looks for. -/
def searchLoop (cmpKey : ℕ → ℤ) (h : Heap) : ℕ → ℕ → Option ℕ
  | 0, _ => none
  | fuel + 1, node =>
    if node ≠ T.nil ∧ cmpKey node ≠ 0 then
      searchLoop cmpKey h fuel (if cmpKey node > 0 then (h node).left else (h node).right)
    else some node

/-- `rb_search`. -/
def rbSearch (fuel : ℕ) (cmpKey : ℕ → ℤ) (h : Heap) : Option (Option ℕ) := do
  let node ← searchLoop T cmpKey h fuel (h T.root).left
  return toNull T node

/-! ### `rb_delete` -/

/-- The part `if (w->red)` of `RB_DELETE_FIXUP_SUB`; returns the memory and the new `w`. -/
def rbDeleteRed (d : Side) (h : Heap) (x w : ℕ) : Option (Heap × ℕ) :=
  if (h w).red then do
    let h := setRed h w false
    let h := setRed h (h x).parent true
    let h ← rbRotate T d h (h x).parent
    return (h, (h (h x).parent).child d.flip)
  else some (h, w)

/-- The part `if (!w->_right->red)`; returns the memory and the new `w`. -/
def rbDeleteInner (d : Side) (h : Heap) (x w : ℕ) : Option (Heap × ℕ) :=
  if (h ((h w).child d.flip)).red = false then do
    let h := setRed h ((h w).child d) false
    let h := setRed h w true
    let h ← rbRotate T d.flip h w
    return (h, (h (h x).parent).child d.flip)
  else some (h, w)

/-- The rest of the branch for a sibling with a red child. -/
def rbDeleteOuter (d : Side) (h : Heap) (x w : ℕ) : Option Heap :=
  let h := setRed h w (h (h x).parent).red
  let h := setRed h (h x).parent false
  let h := setRed h ((h w).child d.flip) false
  rbRotate T d h (h x).parent

/-- The rest of `RB_DELETE_FIXUP_SUB`, where the sibling `w` is black; `top` is the variable `root`
of `rb_delete_fixup`. Returns the memory and the new `x`. -/
def rbDeleteBlack (d : Side) (top : ℕ) (h : Heap) (x w : ℕ) : Option (Heap × ℕ) :=
  if (h ((h w).child d)).red = false ∧ (h ((h w).child d.flip)).red = false then
    let h := setRed h w true
    some (h, (h x).parent)
  else do
    let r ← rbDeleteInner T d h x w
    let h ← rbDeleteOuter T d r.1 x r.2
    return (h, top)

/-- `RB_DELETE_FIXUP_SUB`. -/
def rbDeleteFixupSub (d : Side) (top : ℕ) (h : Heap) (x : ℕ) : Option (Heap × ℕ) := do
  let r ← rbDeleteRed T d h x ((h (h x).parent).child d.flip)
  rbDeleteBlack T d top r.1 x r.2

/-- The body of `while (x != root && !x->red)`. -/
def rbDeleteTurn (top : ℕ) (h : Heap) (x : ℕ) : Option (Heap × ℕ) :=
  if x = (h (h x).parent).left then rbDeleteFixupSub T .left top h x
  else rbDeleteFixupSub T .right top h x

/-- `while (x != root && !x->red)`, and the assignment after it. -/
def rbDeleteFixupLoop (top : ℕ) : ℕ → Heap → ℕ → Option Heap
  | 0, _, _ => none
  | fuel + 1, h, x =>
    if x ≠ top ∧ (h x).red = false then do
      let r ← rbDeleteTurn T top h x
      rbDeleteFixupLoop top fuel r.1 r.2
    else some (setRed h x false)

/-- `rb_delete_fixup`. -/
def rbDeleteFixup (fuel : ℕ) (h : Heap) (node : ℕ) : Option Heap :=
  rbDeleteFixupLoop T (h T.root).left fuel h node

/-- `if (a == a->parent->left) a->parent->left = b; else a->parent->right = b;`. -/
def replaceChild (h : Heap) (a b : ℕ) : Heap :=
  if a = (h (h a).parent).left then setChild h (h a).parent .left b
  else setChild h (h a).parent .right b

/-- The node that `rb_delete` takes out of the tree: `z` if it has at most one child, and its
successor otherwise. -/
def rbDeleteVictim (fuel : ℕ) (h : Heap) (z : ℕ) : Option ℕ :=
  if (h z).left = T.nil ∨ (h z).right = T.nil then some z else rbTreeSuccessor T fuel h z

/-- `if (y != z)`: the successor takes the place of `z`. -/
def rbDeleteMove (h : Heap) (y z : ℕ) : Heap :=
  if y ≠ z then
    let h := replaceChild h z y
    let h := setParent h (h z).right y
    let h := setParent h (h z).left y
    update h y (h z)
  else h

/-- `rb_delete`. -/
def rbDelete (fuel : ℕ) (h : Heap) (node : ℕ) : Option Heap := do
  let z := node
  let y ← rbDeleteVictim T fuel h z
  let x := if (h y).left ≠ T.nil then (h y).left else (h y).right
  if y ≠ T.root ∧ y ≠ T.nil then
    let h := setParent h x (h y).parent
    let h := replaceChild h y x
    let needFixup := !(h y).red
    let h := rbDeleteMove h y z
    if needFixup then rbDeleteFixup T fuel h x else return h
  else none

/-! ### Sequences of operations -/

/-- An operation on a tree. -/
inductive TreeOp where
  | insert (node : ℕ)
  | delete (node : ℕ)
  deriving DecidableEq, Repr

/-- One operation. -/
def step (fuel : ℕ) (cmp : ℕ → ℕ → ℤ) (h : Heap) : TreeOp → Option Heap
  | .insert node => rbInsert T fuel cmp h node
  | .delete node => rbDelete T fuel h node

/-- A sequence of operations. -/
def run (fuel : ℕ) (cmp : ℕ → ℕ → ℤ) (h : Heap) : List TreeOp → Option Heap
  | [] => some h
  | op :: ops => do
      let h ← step T fuel cmp h op
      run fuel cmp h ops

/-- The nodes in the tree after an operation, in no particular order. -/
def TreeOp.nodes (nodes : List ℕ) : TreeOp → List ℕ
  | .insert node => node :: nodes
  | .delete node => nodes.erase node

/-- A node is inserted when it is not in the tree, and deleted when it is. -/
def TreeOp.Allowed (nodes : List ℕ) : TreeOp → Prop
  | .insert node => node ∉ nodes ∧ node ≠ T.nil ∧ node ≠ T.root
  | .delete node => node ∈ nodes

/-- Every operation of the sequence is allowed when it is made. -/
def AllAllowed : List ℕ → List TreeOp → Prop
  | _, [] => True
  | nodes, op :: ops => op.Allowed T nodes ∧ AllAllowed (op.nodes nodes) ops

end UcoreKernel.Rb
