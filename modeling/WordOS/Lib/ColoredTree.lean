import WordOS.Lib.Zipper

/-! Red-black trees with a third colour for a missing black node, whole and with a hole. -/

namespace WordOS.Lib.ColoredTree

open BinaryTree Zipper

variable {β : Type*}

inductive Color
  | red
  | black
  | doubleBlack
  deriving DecidableEq, Repr

structure Cell (β : Type*) where
  color : Color
  val : β

def Cell.paint (k : Color) (a : Cell β) : Cell β := { a with color := k }

@[simp] lemma Cell.paint_color (k : Color) (a : Cell β) : (a.paint k).color = k := rfl
@[simp] lemma Cell.paint_val (k : Color) (a : Cell β) : (a.paint k).val = a.val := rfl
@[simp] lemma Cell.paint_paint (k k' : Color) (a : Cell β) : (a.paint k').paint k = a.paint k := rfl
@[simp] lemma Cell.paint_self (a : Cell β) : a.paint a.color = a := rfl

/-- A missing node counts as black. -/
def color : BinaryTree (Cell β) → Color
  | nil => .black
  | node a _ _ => a.color

def paint (k : Color) : BinaryTree (Cell β) → BinaryTree (Cell β)
  | nil => nil
  | node a l r => node (a.paint k) l r

@[simp] lemma color_nil : color (nil : BinaryTree (Cell β)) = .black := rfl
@[simp] lemma color_node (a : Cell β) (l r) : color (node a l r) = a.color := rfl
@[simp] lemma color_fork (d : Side) (a : Cell β) (x y) : color (fork d a x y) = a.color := by
  cases d <;> rfl
@[simp] lemma paint_nil (k : Color) : paint k (nil : BinaryTree (Cell β)) = nil := rfl
@[simp] lemma paint_node (k : Color) (a : Cell β) (l r) :
    paint k (node a l r) = node (a.paint k) l r := rfl
@[simp] lemma paint_fork (k : Color) (d : Side) (a : Cell β) (x y) :
    paint k (fork d a x y) = fork d (a.paint k) x y := by
  cases d <;> rfl

def vals (t : BinaryTree (Cell β)) : List β := (inorder t).map Cell.val

@[simp] lemma vals_nil : vals (nil : BinaryTree (Cell β)) = [] := rfl
@[simp] lemma vals_node (a : Cell β) (l r) : vals (node a l r) = vals l ++ a.val :: vals r := by
  simp [vals]
@[simp] lemma vals_paint (k : Color) (t : BinaryTree (Cell β)) : vals (paint k t) = vals t := by
  cases t <;> simp
@[simp] lemma vals_rot (d : Side) (t : BinaryTree (Cell β)) : vals (rot d t) = vals t := by
  simp [vals]

lemma vals_plug (c : Path (Cell β)) (t : BinaryTree (Cell β)) :
    vals (plug c t) = (before c).map Cell.val ++ vals t ++ (after c).map Cell.val := by
  simp [vals, inorder_plug]

lemma vals_plug_congr (c : Path (Cell β)) {t u : BinaryTree (Cell β)} (h : vals t = vals u) :
    vals (plug c t) = vals (plug c u) := by
  rw [vals_plug, vals_plug, h]

/-- No red node has a red parent, for a tree under a parent of colour `p`. -/
def NoRedRed : Color → BinaryTree (Cell β) → Prop
  | _, nil => True
  | p, node a l r => ¬ (p = .red ∧ a.color = .red) ∧ NoRedRed a.color l ∧ NoRedRed a.color r

/-- Every way down passes `n` black nodes, and no double black one. -/
def Height : ℕ → BinaryTree (Cell β) → Prop
  | n, nil => n = 0
  | n, node a l r =>
    match a.color with
    | .red => Height n l ∧ Height n r
    | .black => ∃ m, n = m + 1 ∧ Height m l ∧ Height m r
    | .doubleBlack => False

structure RedBlack (t : BinaryTree (Cell β)) : Prop where
  root_black : color t = .black
  noRedRed : NoRedRed .black t
  height : ∃ n, Height n t

/-- The colour above the hole of a path; the root is treated as if under a red node, so
that it cannot be red. -/
def above : Path (Cell β) → Color
  | [] => .red
  | f :: _ => f.value.color

def PathNoRedRed : Path (Cell β) → Prop
  | [] => True
  | f :: c => ¬ (above c = .red ∧ f.value.color = .red) ∧ NoRedRed f.value.color f.sibling ∧ PathNoRedRed c

/-- What a path asks of its hole to make all ways down pass equally many black nodes. -/
def PathHeight : ℕ → Path (Cell β) → Prop
  | _, [] => True
  | n, f :: c =>
    match f.value.color with
    | .red => Height n f.sibling ∧ PathHeight n c
    | .black => Height n f.sibling ∧ PathHeight (n + 1) c
    | .doubleBlack => False

lemma NoRedRed.under {p q : Color} {t : BinaryTree (Cell β)} (h : NoRedRed p t)
    (hq : color t = .red → q = .red → p = .red) : NoRedRed q t := by
  cases t with
  | nil => trivial
  | node a l r => exact ⟨fun hc => h.1 ⟨hq hc.2 hc.1, hc.2⟩, h.2⟩

lemma NoRedRed.paint_black {p q : Color} {t : BinaryTree (Cell β)} (h : NoRedRed p t) :
    NoRedRed q (paint .black t) := by
  cases t with
  | nil => trivial
  | node a l r => exact ⟨by simp, h.2.1.under (by simp), h.2.2.under (by simp)⟩

lemma noRedRed_fork (p : Color) (d : Side) (a : Cell β) (x y) :
    NoRedRed p (fork d a x y) ↔
      ¬ (p = .red ∧ a.color = .red) ∧ NoRedRed a.color x ∧ NoRedRed a.color y := by
  cases d <;> simp [fork, NoRedRed, and_comm]

lemma height_fork {n : ℕ} (d : Side) (a : Cell β) (x y) :
    Height n (fork d a x y) ↔
      match a.color with
      | .red => Height n x ∧ Height n y
      | .black => ∃ m, n = m + 1 ∧ Height m x ∧ Height m y
      | .doubleBlack => False := by
  cases d
  · rfl
  · rcases hc : a.color <;> simp [fork, Height, hc, and_comm]

lemma noRedRed_plug (c : Path (Cell β)) (t) :
    NoRedRed .red (plug c t) ↔ NoRedRed (above c) t ∧ PathNoRedRed c := by
  induction c generalizing t with
  | nil => simp [above, PathNoRedRed]
  | cons f c ih =>
    rw [plug_cons, ih, Frame.plug, noRedRed_fork, PathNoRedRed, above]
    tauto

lemma height_plug (c : Path (Cell β)) (t) :
    (∃ n, Height n (plug c t)) ↔ ∃ n, Height n t ∧ PathHeight n c := by
  induction c generalizing t with
  | nil => simp [PathHeight]
  | cons f c ih =>
    rw [plug_cons, ih]
    simp only [Frame.plug, height_fork, PathHeight]
    rcases f.value.color <;> simp only
    · exact exists_congr fun n => and_assoc
    · constructor
      · rintro ⟨_, ⟨n, rfl, hx, hy⟩, hc⟩
        exact ⟨n, hx, hy, hc⟩
      · rintro ⟨n, hx, hy, hc⟩
        exact ⟨_, ⟨n, rfl, hx, hy⟩, hc⟩
    · simp

lemma Height.paint_black {n : ℕ} {t : BinaryTree (Cell β)} (h : Height n t) (hc : color t = .red) :
    Height (n + 1) (paint .black t) := by
  cases t with
  | nil => simp at hc
  | node a l r =>
    rw [color_node] at hc
    simp only [Height, hc] at h
    exact ⟨n, rfl, h.1, h.2⟩

lemma paint_color {t : BinaryTree (Cell β)} {k : Color} (h : color t = k) : paint k t = t := by
  cases t with
  | nil => rfl
  | node a l r => rw [← h, color_node, paint_node, Cell.paint_self]

lemma Height.unique {t : BinaryTree (Cell β)} {n m : ℕ} (hn : Height n t) (hm : Height m t) : n = m := by
  induction t generalizing n m with
  | nil => exact Eq.trans hn hm.symm
  | node a l r ihl _ =>
    simp only [Height] at hn hm
    rcases hc : a.color <;> simp only [hc] at hn hm
    · exact ihl hn.1 hm.1
    · obtain ⟨n, rfl, hn, _⟩ := hn
      obtain ⟨m, rfl, hm, _⟩ := hm
      rw [ihl hn hm]

lemma Height.color_cases {n : ℕ} {t : BinaryTree (Cell β)} (h : Height n t) : color t = .red ∨ color t = .black := by
  cases t with
  | nil => exact .inr rfl
  | node a l r => rcases ha : a.color <;> simp_all [Height]

lemma PathHeight.unique {c : Path (Cell β)} {n m : ℕ} (hc : c ≠ []) (hn : PathHeight n c) (hm : PathHeight m c) :
    n = m := by
  cases c with
  | nil => exact (hc rfl).elim
  | cons f c =>
    simp only [PathHeight] at hn hm
    rcases hf : f.value.color <;> simp only [hf] at hn hm
    · exact hn.1.unique hm.1
    · exact hn.1.unique hm.1

lemma pathHeight_black {n : ℕ} {d : Side} {b : Cell β} {t : BinaryTree (Cell β)} {c : Path (Cell β)} (hb : b.color = .black) :
    PathHeight n (⟨d, b, t⟩ :: c) ↔ Height n t ∧ PathHeight (n + 1) c := by
  simp [PathHeight, hb]

lemma pathHeight_red {n : ℕ} {d : Side} {b : Cell β} {t : BinaryTree (Cell β)} {c : Path (Cell β)} (hb : b.color = .red) :
    PathHeight n (⟨d, b, t⟩ :: c) ↔ Height n t ∧ PathHeight n c := by
  simp [PathHeight, hb]

lemma height_black {n : ℕ} {d : Side} {m : Cell β} {x y : BinaryTree (Cell β)} (hm : m.color = .black) :
    Height (n + 1) (fork d m x y) ↔ Height n x ∧ Height n y := by
  simp [height_fork, hm]

lemma height_red {n : ℕ} {d : Side} {m : Cell β} {x y : BinaryTree (Cell β)} (hm : m.color = .red) :
    Height n (fork d m x y) ↔ Height n x ∧ Height n y := by
  simp [height_fork, hm]

lemma redBlack_iff (t : BinaryTree (Cell β)) : RedBlack t ↔ NoRedRed .red t ∧ ∃ n, Height n t := by
  constructor
  · rintro ⟨hr, hn, hh⟩
    refine ⟨?_, hh⟩
    cases t with
    | nil => trivial
    | node a l r =>
      rw [color_node] at hr
      exact ⟨by simp [hr], hn.2⟩
  · rintro ⟨hn, n, hh⟩
    cases t with
    | nil => exact ⟨rfl, trivial, n, hh⟩
    | node a l r =>
      refine ⟨?_, ⟨by simp, hn.2⟩, n, hh⟩
      rcases hc : a.color
      · exact (hn.1 ⟨rfl, hc⟩).elim
      · exact hc
      · simp [Height, hc] at hh

lemma redBlack_plug (c : Path (Cell β)) (t : BinaryTree (Cell β)) :
    RedBlack (plug c t) ↔
      NoRedRed (above c) t ∧ PathNoRedRed c ∧ ∃ n, Height n t ∧ PathHeight n c := by
  rw [redBlack_iff, noRedRed_plug, height_plug, and_assoc]

end WordOS.Lib.ColoredTree
