import WordOS.Machine
import WordOS.Lib.ColoredTree

/-! The red-black tree of free ranges of `rbtree.c`, on nodes linked by pointers. -/

namespace WordOS.Utils

open Machine Lib.Zipper Lib.ColoredTree

/-- `0` is NULL. -/
abbrev Ptr := ℕ

structure RbNode where
  id : ℕ
  base : ℕ
  size : ℕ
  flags : ℕ
  color : Color
  left : Ptr
  right : Ptr
  parent : Ptr
  deriving DecidableEq, Repr

namespace RbNode

def child (n : RbNode) : Side → Ptr
  | .left => n.left
  | .right => n.right

def setChild (d : Side) (p : Ptr) (n : RbNode) : RbNode :=
  match d with
  | .left => { n with left := p }
  | .right => { n with right := p }

def setParent (p : Ptr) (n : RbNode) : RbNode := { n with parent := p }

def setColor (k : Color) (n : RbNode) : RbNode := { n with color := k }

end RbNode

/-- The memory the nodes live in and the cell `root` points to. -/
structure RbState where
  nodes : Ptr → RbNode
  root : Ptr

namespace RbState

def load (s : RbState) (p : Ptr) : Exec RbNode :=
  if p = 0 then .error .fault else .ok (s.nodes p)

def put (s : RbState) (p : Ptr) (f : RbNode → RbNode) : RbState :=
  { s with nodes := Function.update s.nodes p (f (s.nodes p)) }

def modify (s : RbState) (p : Ptr) (f : RbNode → RbNode) : Exec RbState :=
  if p = 0 then .error .fault else .ok (s.put p f)

end RbState

/-- `if (p) p->parent = parent;` -/
def setParentOf (s : RbState) (p parent : Ptr) : Exec RbState :=
  if p = 0 then .ok s else s.modify p (·.setParent parent)

/-- Makes `y` the child of `parent` that `node` was, or the root. -/
def replaceChild (s : RbState) (parent node y : Ptr) : Exec RbState :=
  if parent = 0 then .ok { s with root := y }
  else do
    let p ← s.load parent
    s.modify parent (·.setChild (if node = p.left then .left else .right) y)

/-- The two rotations, which mirror each other: the child of `node` on side `d` moves up. -/
def rotation (d : Side) (s : RbState) (node : Ptr) : Exec RbState := do
  let y := (← s.load node).child d
  let inner := (← s.load y).child d.flip
  let s ← s.modify node (·.setChild d inner)
  let s ← setParentOf s inner node
  let parent := (← s.load node).parent
  let s ← s.modify y (·.setParent parent)
  let s ← replaceChild s parent node y
  let s ← s.modify y (·.setChild d.flip node)
  s.modify node (·.setParent y)

def rbLeftRotation : RbState → Ptr → Exec RbState := rotation .right

def rbRightRotation : RbState → Ptr → Exec RbState := rotation .left

def rotate : Side → RbState → Ptr → Exec RbState
  | .left => rbRightRotation
  | .right => rbLeftRotation

def sideOf (s : RbState) (parent node : Ptr) : Exec Side := do
  return if (← s.load parent).left = node then .left else .right

/-- `p ? p->color : BLACK` -/
def colorAt (s : RbState) (p : Ptr) : Exec Color :=
  if p = 0 then .ok .black else do return (← s.load p).color

/-- Turns an inner grandchild into an outer one; the branches of the source for a parent
on the left and on the right mirror each other, as `side`. -/
def straighten (s : RbState) (side : Side) (node : Ptr) : Exec (Ptr × RbState) := do
  let parent := (← s.load node).parent
  if (← s.load parent).child side.flip = node then
    let s ← rotate side.flip s parent
    return ((← s.load node).child side, s)
  else return (node, s)

/-- The last part of `insert_violations`, on an outer grandchild. -/
def liftParent (s : RbState) (node : Ptr) : Exec RbState := do
  let parent := (← s.load node).parent
  let side ← sideOf s parent node
  let s ← s.modify parent (·.setColor .black)
  let grand := (← s.load parent).parent
  let s ← s.modify grand (·.setColor .red)
  rotate side s grand

def insertViolations : ℕ → RbState → Ptr → Exec RbState
  | 0, _, _ => .error .fuel
  | fuel + 1, s, node =>
    if node = 0 then .ok s
    else do
      let parent := (← s.load node).parent
      if parent = 0 then s.modify node (·.setColor .black)
      else if (s.nodes parent).color = .black then return s
      else
        let grand := (← s.load parent).parent
        let side ← sideOf s grand parent
        let uncle := (← s.load grand).child side.flip
        if (← colorAt s uncle) = .red then
          let s ← s.modify parent (·.setColor .black)
          let s ← s.modify uncle (·.setColor .black)
          let s ← s.modify grand (·.setColor .red)
          let s ← insertViolations fuel s grand
          s.modify s.root (·.setColor .black)
        else
          let (node, s) ← straighten s side node
          let s ← liftParent s node
          s.modify s.root (·.setColor .black)

/-- The descent of `insert_node`: the last node met and the direction taken there. -/
def insertDescent : ℕ → RbState → (size : ℕ) → (cur prev : Ptr) → Side → Exec (Ptr × Side)
  | 0, _, _, _, _, _ => .error .fuel
  | fuel + 1, s, size, cur, prev, dir =>
    if cur = 0 then .ok (prev, dir)
    else do
      let n ← s.load cur
      if size > n.size then insertDescent fuel s size n.right cur .right
      else insertDescent fuel s size n.left cur .left

def insertNode (fuel : ℕ) (s : RbState) (node : Ptr) : Exec RbState := do
  if s.root = 0 then return s
  let s ← s.modify s.root (·.setColor .black)
  let (prev, dir) ← insertDescent fuel s (← s.load node).size s.root 0 .left
  let s ← s.modify prev (·.setChild dir node)
  let s ← s.modify node (·.setParent prev)
  let s ← s.modify node (·.setColor .red)
  if (← s.load (← s.load node).parent).color ≠ .black then insertViolations fuel s node else return s

/-- The sibling of `node` and its side. -/
def siblingOf (s : RbState) (node : Ptr) : Exec (Ptr × Side) := do
  let parent ← s.load (← s.load node).parent
  return if parent.left = node then (parent.right, .right) else (parent.left, .left)

/-- Turns a red near nephew with a black far one into a red far nephew. -/
def alignNephew (s : RbState) (sdir : Side) (sibling : Ptr) : Exec RbState := do
  let s ← s.modify sibling (·.setColor .red)
  let s ← s.modify ((← s.load sibling).child sdir.flip) (·.setColor .black)
  rotate sdir.flip s sibling

/-- The rotation of `delete_violations` that ends it. -/
def borrow (s : RbState) (sdir : Side) (node sibling : Ptr) : Exec RbState := do
  let parent := (← s.load node).parent
  let parentColor := (← s.load parent).color
  let sibColor := (← s.load sibling).color
  let s ← s.modify parent (·.setColor sibColor)
  let s ← s.modify sibling (·.setColor parentColor)
  let s ← rotate sdir s parent
  let s ← s.modify node (·.setColor .black)
  let top := (← s.load (← s.load node).parent).parent
  s.modify ((← s.load top).child sdir) (·.setColor .black)

/-- The branches of the source for a sibling on the left and on the right mirror each
other, as `sdir`; the near nephew is the one on the side of `node`. -/
def deleteViolations : ℕ → RbState → Ptr → Exec RbState
  | 0, _, _ => .error .fuel
  | fuel + 1, s, node => do
    let n ← s.load node
    if n.parent = 0 then s.modify node (·.setColor .black)
    else if n.color = .red then return s
    else
      let (sibling, sdir) ← siblingOf s node
      let s ← s.modify node (·.setColor .doubleBlack)
      let sib ← s.load sibling
      let near ← colorAt s (sib.child sdir.flip)
      let far ← colorAt s (sib.child sdir)
      if sib.color = .black ∧ near = .black ∧ far = .black then
        let s ← s.modify node (·.setColor .black)
        let s ← s.modify sibling (·.setColor .red)
        if (← s.load n.parent).color = .black then
          let s ← s.modify n.parent (·.setColor .doubleBlack)
          deleteViolations fuel s n.parent
        else s.modify n.parent (·.setColor .black)
      else if sib.color = .red then
        let s ← s.modify sibling (·.setColor (s.nodes n.parent).color)
        let s ← s.modify n.parent (·.setColor sib.color)
        let s ← rotate sdir s n.parent
        deleteViolations fuel s node
      else if sib.color = .black then
        let s ← if far = .black ∧ near = .red then alignNephew s sdir sibling else .ok s
        let (sibling, _) ← siblingOf s node
        if near = .red then borrow s sdir node sibling else return s
      else return s

/-- `1` marks a slot of the store page as taken for good, `2` as holding a node. -/
def freeNodeObj (s : RbState) (obj : Ptr) : Exec RbState := do
  let n ← s.load obj
  if n.flags &&& 2 = 0 then return s
  s.modify obj fun n => { n with flags := n.flags &&& (2 ^ 32 - 1 - 2), base := 0 }

/-- The walk of `delete_node` to the rightmost node below `min`. -/
def rightmost : ℕ → RbState → Ptr → Exec Ptr
  | 0, _, _ => .error .fuel
  | fuel + 1, s, min => do
    if min = 0 then return min
    let right := (← s.load min).right
    if right = 0 then return min
    rightmost fuel s right

def RbNode.copy (src : RbNode) (n : RbNode) : RbNode :=
  { n with base := src.base, size := src.size, flags := src.flags }

/-- The last lines of `delete_node` for a node with children; `gone` is the one given up. -/
def settle (s : RbState) (node gone : Ptr) : Exec RbState := do
  let s ← if node = s.root then s.modify node (·.setColor .black) else pure s
  freeNodeObj s gone

/-- What `delete_node` does once the tree is balanced for the removal of `min`. -/
def unlinkMin (s : RbState) (node min : Ptr) : Exec RbState := do
  let m ← s.load min
  let s ← s.modify node (m.copy ·)
  let s ←
    if min = (← s.load node).left then s.modify node (·.setChild .left 0)
    else s.modify (← s.load min).parent (·.setChild .right 0)
  settle s node min

def deleteNode (fuel : ℕ) (s : RbState) (node : Ptr) : Exec RbState := do
  let n ← s.load node
  let s ←
    if node = s.root ∧ n.left = 0 ∧ n.right = 0 then freeNodeObj { s with root := 0 } node
    else pure s
  if n.left = 0 ∧ n.right = 0 then
    let s ← deleteViolations fuel s node
    let size := (← s.load node).size
    let s ←
      if size > (← s.load n.parent).size then s.modify n.parent (·.setChild .right 0)
      else s.modify n.parent (·.setChild .left 0)
    freeNodeObj s node
  else if n.left ≠ 0 ∧ n.right ≠ 0 then
    let min ← rightmost fuel s n.left
    let s ← deleteViolations fuel s min
    unlinkMin s node min
  else
    let toCopy := if n.left ≠ 0 then n.left else n.right
    let c ← s.load toCopy
    let s ← s.modify node (c.copy ·)
    let s ← deleteViolations fuel s toCopy
    let c ← s.load toCopy
    let s ← s.modify node fun n => { n with color := c.color, right := c.right, left := c.left }
    settle s node toCopy

/-- The scan of `alloc_node_obj` over the slots of a store page, 32 bytes each. -/
def allocNodeObj : ℕ → RbState → (start : Ptr) → Exec (Ptr × RbState)
  | 0, _, _ => .error .fuel
  | fuel + 1, s, start => do
    let n ← s.load start
    if n.flags &&& 1 ≠ 0 then allocNodeObj fuel s (start + 32)
    else return (start, s.put start fun n => { n with flags := 3 })

/-- `start` is the first slot of the VMM's store page. -/
def makeNode (fuel : ℕ) (s : RbState) (start : Ptr) (base size id : ℕ) : Exec (Ptr × RbState) := do
  let (node, s) ← allocNodeObj fuel s start
  let s ← s.modify node fun n => { n with size := size, id := id, base := base }
  if s.root = 0 then
    let s ← s.modify node fun n => { n with color := .black, left := 0, right := 0, parent := 0 }
    return (node, { s with root := node })
  else
    return (node, ← insertNode fuel s node)

end WordOS.Utils
