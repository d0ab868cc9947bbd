import WordOS.Utils.RbDeleteRanges

/-! What a rotation keeps of a tree in memory, and that the two rotations undo each other. -/

namespace WordOS.Utils

open Machine BinaryTree Lib.Zipper Lib.ColoredTree

def RbNode.unlinked (n : RbNode) : RbNode := { n with left := 0, right := 0, parent := 0 }

/-- What a rotation at the node `p` of `t` does, where the child on side `d` moves up. The cell `root` is written exactly when
`p` is the root, whatever the cell holds. -/
structure Rotated (rest : Ptr → RbNode) (s : RbState) (t : RbTree) (d : Side) (p : Ptr) (s' : RbState) (t' : RbTree) : Prop where
  represents : Represents rest s' t'
  place : ∃ c u, t = plug c u ∧ addr u = p ∧ t' = plug c (rot d u)
  inorder : inorder t' = inorder t
  contents : ∀ q, (s'.nodes q).unlinked = (s.nodes q).unlinked
  root : ∀ r, rotate d (s.reroot r) p = .ok (s'.reroot (if p = s.root then (s.nodes p).child d else r))
  restored : rotate d.flip s' ((s.nodes p).child d) = .ok s

variable {rest : Ptr → RbNode} {s s' : RbState} {c : RbPath} {d : Side} {t t' x y z : RbTree} {a b : Cell Entry} {p q : Ptr}
  {n n' : Ptr → RbNode}

lemma unlinked_record (d : Side) (a : Cell Entry) (x y p : Ptr) : (record d a x y p).unlinked = record .left a 0 0 0 := by
  cases d <;> rfl

lemma Rep.nodes_unique (h : Rep n p t) (h' : Rep n' p t) (hq : q ∈ ptrs t) : n' q = n q := by
  induction t generalizing p with
  | nil => cases hq
  | node a l r ihl ihr =>
    obtain ⟨ha, hl, hr⟩ := h
    obtain ⟨ha', hl', hr'⟩ := h'
    rcases mem_ptrs_node.mp hq with rfl | hq | hq
    · exact ha'.trans ha.symm
    · exact ihl hl hl' hq
    · exact ihr hr hr' hq

namespace Represents

/-- A tree and what lies beside it make up the whole state. -/
lemma state_unique (h : Represents rest s t) (h' : Represents rest s' t) : s' = s := by
  have hnodes : s'.nodes = s.nodes := by
    funext q
    by_cases hq : q ∈ ptrs t
    · exact h.rep.nodes_unique h'.rep hq
    · exact (h'.rest q hq).trans (h.rest q hq).symm
  have hroot : s'.root = s.root := h'.root.trans h.root.symm
  cases s
  cases s'
  cases hnodes
  cases hroot
  rfl

lemma unlinked_eq (h : Represents rest s t) (ha : a ∈ inorder t) : (s.nodes a.val.ptr).unlinked = record .left a 0 0 0 := by
  obtain ⟨c, l, r, rfl⟩ := exists_path ha
  rw [h.nodes_eq (d := .left) (a := a)]
  exact unlinked_record ..

lemma contents_eq (h : Represents rest s t) (h' : Represents rest s' t') (hi : inorder t' = inorder t) (q : Ptr) :
    (s'.nodes q).unlinked = (s.nodes q).unlinked := by
  have hp : ptrs t' = ptrs t := by rw [ptrs, ptrs, vals, vals, hi]
  by_cases hq : q ∈ ptrs t
  · obtain ⟨e, he, rfl⟩ := List.mem_map.mp hq
    obtain ⟨a, ha, rfl⟩ := List.mem_map.mp he
    rw [h.unlinked_eq ha, h'.unlinked_eq (hi ▸ ha)]
  · rw [h'.rest q (hp ▸ hq), h.rest q hq]

lemma exists_pivot (h : Represents rest s t) (hp : p ∈ ptrs t) (hc : (s.nodes p).child d ≠ 0) :
    ∃ c a b x y z, t = plug c (fork d a (fork d b x y) z) ∧ a.val.ptr = p ∧ b.val.ptr = (s.nodes p).child d := by
  obtain ⟨e, he, rfl⟩ := List.mem_map.mp hp
  obtain ⟨a, ha, rfl⟩ := List.mem_map.mp he
  obtain ⟨c, l, r, rfl⟩ := exists_path ha
  rw [← fork_pick d a l r] at h ⊢
  have hchild : (s.nodes a.val.ptr).child d = addr (d.pick l r) := by
    rw [h.nodes_eq, record_child]
  rw [hchild] at hc ⊢
  have hne : d.pick l r ≠ nil := by
    intro hn
    rw [hn] at hc
    exact hc rfl
  obtain ⟨b, x, y, hu⟩ := exists_fork hne d
  exact ⟨c, a, b, x, y, _, by rw [hu], rfl, by rw [hu, addr_fork]⟩

lemma nil_iff (h : Represents rest s (plug c t)) (ht : t ≠ nil) : c = [] ↔ addr t = s.root := by
  cases c with
  | nil => exact iff_of_true rfl h.root.symm
  | cons f c => exact iff_of_false (List.cons_ne_nil _ _) (h.root_ne ht)

lemma rotate_any_root (h : Represents rest s (plug c (fork d a (fork d b x y) z)))
    (h' : Represents rest s' (plug c (fork d b x (fork d a y z)))) (r : Ptr) :
    Utils.rotate d (s.reroot r) a.val.ptr = .ok (s'.reroot (if a.val.ptr = s.root then b.val.ptr else r)) := by
  have hc := h.nil_iff fork_ne_nil
  rw [addr_fork] at hc
  obtain ⟨s₁, e₁, h₁⟩ := h.rotate_reroot r
  obtain rfl := h'.state_unique h₁
  rw [e₁]
  by_cases hn : c = []
  · subst hn
    rw [if_pos rfl, if_pos (hc.mp rfl), h₁.root, plug_nil, addr_fork]
  · rw [if_neg hn, if_neg (mt hc.mpr hn)]

lemma rotate_flip (h : Represents rest s (plug c (fork d a (fork d b x y) z)))
    (h' : Represents rest s' (plug c (fork d b x (fork d a y z)))) : Utils.rotate d.flip s' b.val.ptr = .ok s := by
  have hflip : Represents rest s' (plug c (fork d.flip b (fork d.flip a z y) x)) := by
    simpa only [fork_flip] using h'
  obtain ⟨s₁, e₁, h₁⟩ := hflip.rotate
  simp only [fork_flip] at h₁
  rw [e₁, h.state_unique h₁]

end Represents

/-- Of `rb_left_rotation`, where `d` is right, and `rb_right_rotation`, where it is left. -/
theorem rotate_rotated (h : Represents rest s t) (hp : p ∈ ptrs t) (hc : (s.nodes p).child d ≠ 0) :
    ∃ s' t', rotate d s p = .ok s' ∧ Rotated rest s t d p s' t' := by
  obtain ⟨c, a, b, x, y, z, rfl, rfl, hb⟩ := h.exists_pivot hp hc
  obtain ⟨s', he, h'⟩ := h.rotate
  have hrot : plug c (fork d b x (fork d a y z)) = plug c (rot d (fork d a (fork d b x y) z)) := by
    rw [rot_fork]
  have hi : inorder (plug c (fork d b x (fork d a y z))) = inorder (plug c (fork d a (fork d b x y) z)) := by
    rw [hrot, inorder_plug, inorder_plug, inorder_rot]
  refine ⟨s', _, he, h', ⟨c, _, rfl, addr_fork .., hrot⟩, hi, h.contents_eq h' hi, ?_, ?_⟩
  · rw [← hb]
    exact h.rotate_any_root h'
  · rw [← hb]
    exact h.rotate_flip h'

/-- The root of three nodes goes down to the left. -/
theorem rotate_rotated_root : ∃ s' t', rotate .right ⟨lay emptyStore 0 threeRanges, 64⟩ 64 = .ok s' ∧
    Rotated emptyStore ⟨lay emptyStore 0 threeRanges, 64⟩ threeRanges .right 64 s' t' :=
  rotate_rotated (represents_lay emptyStore (t := threeRanges) (by decide) (by decide)) (by decide) (by decide)

end WordOS.Utils
