import Mathlib.Data.Tree.Basic
import Mathlib.Tactic

/-! Binary trees seen from one of their nodes: in-order lists, paths to the root, rotations. -/

namespace WordOS.Lib.Zipper

open BinaryTree

variable {α β : Type*}

inductive Side
  | left
  | right
  deriving DecidableEq, Repr

def Side.flip : Side → Side
  | .left => .right
  | .right => .left

@[simp] lemma Side.flip_flip (d : Side) : d.flip.flip = d := by cases d <;> rfl

@[simp] lemma Side.flip_ne (d : Side) : d.flip ≠ d := by cases d <;> decide

lemma Side.eq_flip {d e : Side} (h : d ≠ e) : d = e.flip := by
  cases d <;> cases e <;> simp_all [Side.flip]

def Side.pick {γ : Type*} : Side → γ → γ → γ
  | .left, l, _ => l
  | .right, _, r => r

def inorder : BinaryTree α → List α
  | nil => []
  | node a l r => inorder l ++ a :: inorder r

@[simp] lemma inorder_nil : inorder (nil : BinaryTree α) = [] := rfl

@[simp] lemma inorder_node (a : α) (l r : BinaryTree α) :
    inorder (node a l r) = inorder l ++ a :: inorder r := rfl

def fork : Side → α → BinaryTree α → BinaryTree α → BinaryTree α
  | .left, a, x, y => node a x y
  | .right, a, x, y => node a y x

lemma fork_flip (d : Side) (a : α) (x y : BinaryTree α) : fork d.flip a x y = fork d a y x := by
  cases d <;> rfl

@[simp] lemma fork_pick (d : Side) (a : α) (l r : BinaryTree α) :
    fork d a (d.pick l r) (d.pick r l) = node a l r := by
  cases d <;> rfl

lemma exists_fork {t : BinaryTree α} (h : t ≠ nil) (d : Side) : ∃ a x y, t = fork d a x y := by
  cases t with
  | nil => exact (h rfl).elim
  | node a l r =>
    cases d
    · exact ⟨a, l, r, rfl⟩
    · exact ⟨a, r, l, rfl⟩

/-- One step of the way from a node up to the root: the parent's value, the side the node
is on, and the subtree on the other side. -/
structure Frame (α : Type*) where
  side : Side
  value : α
  sibling : BinaryTree α

abbrev Path (α : Type*) := List (Frame α)

namespace Frame

def plug (f : Frame α) (t : BinaryTree α) : BinaryTree α := fork f.side f.value t f.sibling

def before (f : Frame α) : List α :=
  match f.side with
  | .left => []
  | .right => inorder f.sibling ++ [f.value]

def after (f : Frame α) : List α :=
  match f.side with
  | .left => f.value :: inorder f.sibling
  | .right => []

lemma inorder_plug (f : Frame α) (t : BinaryTree α) :
    inorder (f.plug t) = f.before ++ inorder t ++ f.after := by
  rcases f with ⟨_ | _, a, x⟩ <;> simp [plug, before, after, fork]

end Frame

def plug : Path α → BinaryTree α → BinaryTree α
  | [], t => t
  | f :: c, t => plug c (f.plug t)

@[simp] lemma plug_nil (t : BinaryTree α) : plug [] t = t := rfl

@[simp] lemma plug_cons (f : Frame α) (c : Path α) (t : BinaryTree α) :
    plug (f :: c) t = plug c (f.plug t) := rfl

def before : Path α → List α
  | [] => []
  | f :: c => before c ++ f.before

def after : Path α → List α
  | [] => []
  | f :: c => f.after ++ after c

lemma inorder_plug (c : Path α) (t : BinaryTree α) :
    inorder (plug c t) = before c ++ inorder t ++ after c := by
  induction c generalizing t with
  | nil => simp [before, after]
  | cons f c ih => simp [ih, Frame.inorder_plug, before, after]

lemma plug_eq_nil {c : Path α} {t : BinaryTree α} (h : plug c t = nil) : c = [] ∧ t = nil := by
  induction c generalizing t with
  | nil => exact ⟨rfl, h⟩
  | cons f c ih =>
    have hf := (ih h).2
    rcases f with ⟨_ | _, a, x⟩ <;> simp [Frame.plug, fork] at hf

lemma exists_path {t : BinaryTree α} {a : α} (h : a ∈ inorder t) :
    ∃ c l r, t = plug c (node a l r) := by
  suffices hs : ∀ p : Path α, ∃ c l r, plug p t = plug c (node a l r) from hs []
  induction t with
  | nil => simp at h
  | node b l r ihl ihr =>
    intro p
    simp only [inorder_node, List.mem_append, List.mem_cons] at h
    rcases h with h | rfl | h
    · exact ihl h (⟨.left, b, r⟩ :: p)
    · exact ⟨p, l, r, rfl⟩
    · exact ihr h (⟨.right, b, l⟩ :: p)

def rot : Side → BinaryTree α → BinaryTree α
  | .left, node a (node b x y) z => node b x (node a y z)
  | .right, node a x (node b y z) => node b (node a x y) z
  | _, t => t

lemma rot_fork (d : Side) (a b : α) (x y z : BinaryTree α) :
    rot d (fork d a (fork d b x y) z) = fork d b x (fork d a y z) := by
  cases d <;> rfl

@[simp] lemma inorder_rot (d : Side) (t : BinaryTree α) : inorder (rot d t) = inorder t := by
  unfold rot
  split <;> simp

end WordOS.Lib.Zipper
