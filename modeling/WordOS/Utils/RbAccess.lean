import WordOS.Utils.RbRotation

/-! What the accesses of `rbtree.c` read and write, node by node, on a represented tree. -/

namespace WordOS.Utils

open Machine BinaryTree Lib.Zipper Lib.ColoredTree

namespace Represents

variable {rest : Ptr → RbNode} {s : RbState} {c : RbPath} {d : Side} {a b : Cell Entry} {x y t : RbTree}
  {f : Frame (Cell Entry)}

lemma addr_ne_zero (h : Represents rest s (plug c t)) (ht : t ≠ nil) : addr t ≠ 0 := by
  intro hz
  exact h.ne_zero (hz ▸ List.mem_append_right _ (addr_mem ht))

lemma ptr_ne_zero (h : Represents rest s (plug c (fork d a x y))) : a.val.ptr ≠ 0 := by
  have := h.addr_ne_zero (t := fork d a x y) (by cases d <;> simp [fork])
  rwa [addr_fork] at this

lemma nodes_eq (h : Represents rest s (plug c (fork d a x y))) :
    s.nodes a.val.ptr = record d a (addr x) (addr y) (parentAddr c) :=
  ((rep_fork ..).mp h.focus.2).1

lemma load (h : Represents rest s (plug c (fork d a x y))) :
    s.load a.val.ptr = .ok (record d a (addr x) (addr y) (parentAddr c)) := by
  rw [RbState.load, if_neg h.ptr_ne_zero, h.nodes_eq]

lemma across (h : Represents rest s (plug (f :: c) t)) :
    Represents rest s (plug (⟨f.side.flip, f.value, t⟩ :: c) f.sibling) := by
  simpa only [plug_cons, Frame.plug, fork_flip] using h

lemma colorAt (h : Represents rest s (plug c t)) : colorAt s (addr t) = .ok (color t) := by
  cases t with
  | nil => rfl
  | node a l r =>
    have := h.load (d := .left) (a := a)
    rw [addr_node, Utils.colorAt, if_neg (h.ptr_ne_zero (d := .left) (a := a)), this, ok_bind]
    rfl

lemma put (h : Represents rest s (plug c (fork d a x y))) (hb : b.val.ptr = a.val.ptr) {g : RbNode → RbNode}
    (hg : ∀ p q r, g (record d a p q r) = record d b p q r) :
    Represents rest (s.put a.val.ptr g) (plug c (fork d b x y)) := by
  obtain ⟨hpath, hrep⟩ := h.focus
  obtain ⟨ha, hx, hy⟩ := (rep_fork ..).mp hrep
  have hperm := ptrs_fork d a x y
  have hd := (hperm.append_left (pathPtrs c)).nodup_iff.mp h.nodup
  simp only [List.nodup_append, List.nodup_cons, List.mem_append, List.mem_cons, not_or] at hd
  obtain ⟨_, ⟨⟨hax, hay⟩, _⟩, hdisj⟩ := hd
  have hn : ∀ q, q ≠ a.val.ptr → (s.put a.val.ptr g).nodes q = s.nodes q := fun q hq => put_nodes_ne hq
  refine h.relink ?_ ?_ ?_ ?_
  · rw [List.perm_iff_count]
    intro q
    simp only [List.count_append, hperm.count_eq q, (ptrs_fork d b x y).count_eq q, hb]
  · rw [addr_fork] at hpath
    rw [addr_fork, hb]
    refine hpath.congr fun q hq => hn q ?_
    rintro rfl
    exact hdisj _ hq _ (.inl rfl) rfl
  · refine (rep_fork ..).mpr ⟨?_, ?_, ?_⟩
    · rw [hb, put_nodes_self, ha, hg]
    · rw [hb]
      exact hx.congr fun q hq => hn q (by rintro rfl; exact hax hq)
    · rw [hb]
      exact hy.congr fun q hq => hn q (by rintro rfl; exact hay hq)
  · intro q hq
    refine hn q ?_
    rintro rfl
    exact hq (List.mem_append_right _ (mem_ptrs_fork.mpr (.inl rfl)))

lemma setColor (h : Represents rest s (plug c (fork d a x y))) (k : Color) :
    ∃ s', s.modify a.val.ptr (·.setColor k) = .ok s' ∧
      Represents rest s' (plug c (fork d (a.paint k) x y)) :=
  ⟨_, by rw [RbState.modify, if_neg h.ptr_ne_zero], 
    h.put (b := a.paint k) rfl fun p q r => record_setColor d a p q r k⟩

lemma setColorAt (h : Represents rest s (plug c t)) (ht : t ≠ nil) (k : Color) :
    ∃ s', s.modify (addr t) (·.setColor k) = .ok s' ∧ Represents rest s' (plug c (paint k t)) := by
  cases t with
  | nil => exact (ht rfl).elim
  | node a l r => exact h.setColor (d := .left) k

lemma child_eq_iff (h : Represents rest s (plug c (fork d a x y))) (hx : x ≠ nil) :
    (s.nodes a.val.ptr).left = addr x ↔ d = .left := by
  have hf : RepPath s.nodes s.root (⟨d, a, y⟩ :: c) (addr x) := (h.focus (c := ⟨d, a, y⟩ :: c) (t := x)).1
  have hn := h.nodup (c := ⟨d, a, y⟩ :: c) (t := x)
  refine hf.left_iff (h.addr_ne_zero (c := ⟨d, a, y⟩ :: c) hx) ?_ h.ptr_ne_zero
  intro hm
  exact (List.nodup_append.mp hn).2.2 _ hm _ (addr_mem hx) rfl

lemma sideOf (h : Represents rest s (plug c (fork d a x y))) (hx : x ≠ nil) :
    sideOf s a.val.ptr (addr x) = .ok d := by
  have hc := h.child_eq_iff hx
  rw [h.nodes_eq] at hc
  simp only [Utils.sideOf, h.load, ok_bind, pure_eq]
  cases d <;> simp_all

end Represents

end WordOS.Utils
