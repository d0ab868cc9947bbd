import WordOS.Utils.RbInsertFix

/-! What `delete_violations` makes of a represented tree, as a function on paths. -/

namespace WordOS.Utils

open Machine BinaryTree Lib.Zipper Lib.ColoredTree

/-- The tree of a sibling with a red near nephew before its parent is rotated: the near
nephew takes its place if the far one is black. -/
def alignSibling (d : Side) : RbTree → RbTree
  | nil => nil
  | node s l r =>
    if color (d.pick r l) = .black then
      rot d (fork d (s.paint .red) (paint .black (d.pick l r)) (d.pick r l))
    else node s l r

/-- The path once the sibling has been lifted over the parent, exchanging colours with it. -/
def lift (d : Side) (b : Cell Entry) (c : RbPath) : RbTree → RbPath
  | nil => c
  | node s l r => ⟨d, b.paint s.color, d.pick l r⟩ :: ⟨d, s.paint b.color, d.pick r l⟩ :: c

def paintFar : RbPath → RbPath
  | f :: g :: c => f :: { g with sibling := paint .black g.sibling } :: c
  | c => c

def climb (c : RbPath) : ℕ := (c.map fun f => 2 * (vals f.sibling).length + 1).sum

lemma climb_lift (d : Side) (b : Cell Entry) (c : RbPath) {t : RbTree} (ht : t ≠ nil) :
    climb (lift d b c t) < climb (⟨d, b, t⟩ :: c) := by
  cases t with
  | nil => exact (ht rfl).elim
  | node m l r => cases d <;> simp [climb, lift, Side.pick] <;> omega

/-- The colour of the node and the path above it when `delete_violations` returns, for a
node of the given colour; nothing when it reads a missing sibling. -/
def deleteFix : RbPath → Color → Option (Color × RbPath)
  | [], _ => some (.black, [])
  | f :: c, k =>
    if k = .red then some (k, f :: c)
    else
      match _hs : f.sibling with
      | nil => none
      | node s l r =>
        if s.color = .black ∧ color (f.side.pick l r) = .black ∧ color (f.side.pick r l) = .black then
          if f.value.color = .black then
            (deleteFix c .doubleBlack).map fun q =>
              (.black, ⟨f.side, f.value.paint q.1, node (s.paint .red) l r⟩ :: q.2)
          else some (.black, ⟨f.side, f.value.paint .black, node (s.paint .red) l r⟩ :: c)
        else if s.color = .red then deleteFix (lift f.side f.value c (node s l r)) .doubleBlack
        else if s.color = .black ∧ color (f.side.pick l r) = .red then
          some (.black, paintFar (lift f.side f.value c (alignSibling f.side (node s l r))))
        else some (.doubleBlack, f :: c)
  termination_by c => climb c
  decreasing_by
    · simp [climb]
    · have hs : f.sibling = node s l r := ‹_›
      exact (climb_lift f.side f.value c (by simp)).trans_eq (by rw [← hs])

lemma lift_fork (d : Side) (b m : Cell Entry) (x y : RbTree) (c : RbPath) :
    lift d b c (fork d m x y) = ⟨d, b.paint m.color, x⟩ :: ⟨d, m.paint b.color, y⟩ :: c := by
  cases d <;> rfl

lemma alignSibling_fork (d : Side) (m : Cell Entry) (x y : RbTree) :
    alignSibling d (fork d m x y) =
      if color y = .black then rot d (fork d (m.paint .red) (paint .black x) y) else fork d m x y := by
  cases d <;> rfl

@[simp] lemma deleteFix_red (f : Frame (Cell Entry)) (c : RbPath) :
    deleteFix (f :: c) .red = some (.red, f :: c) := by
  rw [deleteFix, if_pos rfl]

lemma deleteFix_fork (d : Side) (b m : Cell Entry) (near far : RbTree) (c : RbPath) {k : Color} (hk : k ≠ .red) :
    deleteFix (⟨d, b, fork d m near far⟩ :: c) k =
      if m.color = .black ∧ color near = .black ∧ color far = .black then
        if b.color = .black then
          (deleteFix c .doubleBlack).map fun q =>
            (.black, ⟨d, b.paint q.1, fork d (m.paint .red) near far⟩ :: q.2)
        else some (.black, ⟨d, b.paint .black, fork d (m.paint .red) near far⟩ :: c)
      else if m.color = .red then
        deleteFix (lift d b c (fork d m near far)) .doubleBlack
      else if m.color = .black ∧ color near = .red then
        some (.black, paintFar (lift d b c (alignSibling d (fork d m near far))))
      else some (.doubleBlack, ⟨d, b, fork d m near far⟩ :: c) := by
  rw [deleteFix, if_neg hk]
  cases d <;> rfl

end WordOS.Utils
