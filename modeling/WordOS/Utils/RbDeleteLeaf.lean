import WordOS.Utils.RbDeleteClean
import WordOS.Utils.RbDeleteRoot
import WordOS.Utils.RbSearch

/-! `delete_node` of a node without children, where sizes may be equal. -/

namespace WordOS.Utils

open Machine BinaryTree Lib.Zipper Lib.ColoredTree

/-- `delete_node` unlinks the node `e` of `t` and no other one. -/
def Unlinks (fuel : ℕ) (s : RbState) (t : RbTree) (e : Entry) : Prop :=
  ∃ s' t', deleteNode fuel s e.ptr = .ok s' ∧ Represents s'.nodes s' t' ∧ (vals t').Perm ((vals t).erase e)

variable {rest : Ptr → RbNode} {s s' : RbState} {c : RbPath} {f : Frame (Cell Entry)} {a : Cell Entry} {t : RbTree} {e : Entry}
  {fuel : ℕ}

lemma Sorted.left_le (h : Sorted (plug (f :: c) (node a nil nil))) (hs : f.side = .left) : a.val.size ≤ f.value.val.size := by
  have hp : Sorted (f.plug (node a nil nil)) := by
    rw [Sorted, plug_cons, vals_plug, List.pairwise_append, List.pairwise_append] at h
    exact h.1.2.1
  obtain ⟨d, b, x⟩ := f
  obtain rfl : d = .left := hs
  exact (Sorted.node_iff.mp hp).2.2.1 a.val (by simp)

namespace Represents

lemma vals_nodup (h : Represents rest s t) : (vals t).Nodup := h.distinct.of_map

lemma not_unlinked (h : Represents rest s t) (he : e ∈ vals t) {t' : RbTree} (hp : (vals t').Perm ((vals t).erase e)) :
    e.ptr ∉ ptrs t' := by
  intro hm
  rw [ptrs, (hp.map Entry.ptr).mem_iff] at hm
  obtain ⟨e', he', hptr⟩ := List.mem_map.mp hm
  have hne : e' ≠ e := by
    rintro rfl
    exact (h.vals_nodup.mem_erase_iff.mp he').1 rfl
  exact hne (List.inj_on_of_nodup_map h.distinct (List.mem_of_mem_erase he') he hptr)

lemma unlinks_of_side (h : Represents rest s (plug (f :: c) (node a nil nil))) (hb : RedBlack (plug (f :: c) (node a nil nil)))
    (hs : a.val.size > f.value.val.size ↔ f.side = .right) (hf : climb (f :: c) < fuel) :
    Unlinks fuel s (plug (f :: c) (node a nil nil)) a.val := by
  obtain ⟨q, s', hq, he, h'⟩ := h.exists_deleteNode_leaf hb hs hf
  have hv : vals (plug q.2 nil) = vals (plug (f :: c) nil) := (deleteFix_rebalances hq).keeps.vals_plug rfl
  have hperm : (vals (plug (f :: c) (node a nil nil))).Perm (a.val :: vals (plug (f :: c) nil)) := vals_plug_perm ..
  refine ⟨s', _, he, h', ?_⟩
  have := (hperm.erase a.val).symm
  rw [List.erase_cons_head] at this
  rw [hv]
  exact this

lemma not_unlinks_of_astray (h : Represents rest s (plug (f :: c) (node a nil nil)))
    (hb : RedBlack (plug (f :: c) (node a nil nil))) (hs : ¬ (a.val.size > f.value.val.size ↔ f.side = .right))
    (hf : climb (f :: c) < fuel) : ¬ Unlinks fuel s (plug (f :: c) (node a nil nil)) a.val := by
  rintro ⟨s', t', he, h', hp⟩
  obtain ⟨q, hq⟩ := exists_deleteFix_of_redBlack hb
  obtain ⟨b, f', p, -, hptr, hL⟩ := h.deleteNode_leaf_astray hs (h.root_ne (by simp)) hq hf
  obtain ⟨u, hu, hr, -⟩ := hL.leaves h.root
  rw [reroot_self] at hu
  obtain rfl := Except.ok.inj (hu.symm.trans he)
  obtain rfl := h'.unique hr
  have ha : a.val ∈ vals (plug (f :: c) (node a nil nil)) := (vals_plug_perm ..).mem_iff.mpr (by simp)
  apply h.not_unlinked ha hp
  rw [← hptr]
  refine (ptrs_plug ..).mem_iff.mpr (List.mem_append_left _ ?_)
  simp [pathPtrs, ptrs]

lemma deleteNode_completes {l r : RbTree} (h : Represents rest s (plug c (node a l r))) (hb : RedBlack (plug c (node a l r)))
    (h2 : 2 ≤ (ptrs (plug c (node a l r))).length) (hf : 2 * (ptrs (plug c (node a l r))).length < fuel) :
    ∃ s', deleteNode fuel s a.val.ptr = .ok s' := by
  have hlen := (ptrs_plug c (node a l r)).length_eq
  have hclimb := climb_le c
  have hpos : 0 < (ptrs (node a l r)).length := List.length_pos_of_mem (mem_ptrs_node.mpr (.inl rfl))
  rw [List.length_append] at hlen
  have hlone : ∀ {d : Side} {t : RbTree}, plug c (node a l r) = plug c (fork d a t nil) → t ≠ nil →
      ∃ s', deleteNode fuel s a.val.ptr = .ok s' := by
    intro d t ht hne
    rw [ht] at h hb
    obtain ⟨hn, -, n, hh, -⟩ := (redBlack_plug ..).mp hb
    obtain ⟨-, b, rfl, hbr⟩ := (lone_child hn hh).resolve_left hne
    have hclimb' : climb (⟨d, a, nil⟩ :: c) < fuel := (climb_lone_le d a c).trans_lt (by omega)
    obtain ⟨k, -, -, s', he, -⟩ := (h.deleteNode_single (.inl hclimb')).2 hbr
    exact ⟨s', he⟩
  rcases l with _ | ⟨b₀, x₀, y₀⟩ <;> rcases r with _ | ⟨e, z, w⟩
  · rcases c with _ | ⟨f, c⟩
    · simp [ptrs] at h2
    · obtain ⟨q, hq⟩ := exists_deleteFix_of_redBlack hb
      by_cases hs : a.val.size > f.value.val.size ↔ f.side = .right
      · obtain ⟨s', t', he, -⟩ := h.unlinks_of_side hb hs (show _ < fuel by omega)
        exact ⟨s', he⟩
      · obtain ⟨b, f', p, -, -, hL⟩ := h.deleteNode_leaf_astray hs (h.root_ne (by simp)) hq (show _ < fuel by omega)
        obtain ⟨u, hu, -⟩ := hL.leaves h.root
        rw [reroot_self] at hu
        exact ⟨u, hu⟩
  · exact hlone (d := .right) rfl (by simp)
  · exact hlone (d := .left) rfl (by simp)
  · obtain ⟨b, x, q, hm, -, hq⟩ :=
      exists_predecessor (c := ⟨.left, a, node e z w⟩ :: c) (l := node b₀ x₀ y₀) (by simp) hb
    rcases h.deleteNode_both (by simp) (by simp) hm (.inl hf) with ⟨hno, -⟩ | ⟨k, p, f, c', k', -, -, -, -, -, -, s', he, -⟩
    · rw [hq] at hno
      cases hno
    · exact ⟨s', he⟩

end Represents

/-- Below the root a node without children is unlinked, and nothing else, unless it is the right child of a node of its
own size. -/
theorem deleteNode_unlinks_iff (h : Represents rest s (plug (f :: c) (node a nil nil)))
    (hb : RedBlack (plug (f :: c) (node a nil nil))) (ho : Sorted (plug (f :: c) (node a nil nil)))
    (hf : climb (f :: c) < fuel) :
    Unlinks fuel s (plug (f :: c) (node a nil nil)) a.val ↔ ¬ (f.side = .right ∧ a.val.size ≤ f.value.val.size) := by
  have hside : (a.val.size > f.value.val.size ↔ f.side = .right) ↔ ¬ (f.side = .right ∧ a.val.size ≤ f.value.val.size) := by
    cases hs : f.side with
    | left =>
      have := ho.left_le hs
      simp only [reduceCtorEq, iff_false, false_and, not_false_eq_true, iff_true]
      omega
    | right => simp
  rw [← hside]
  constructor
  · intro hu
    by_contra hs
    exact h.not_unlinks_of_astray hb hs hf hu
  · exact fun hs => h.unlinks_of_side hb hs hf

/-- Three ranges of one page, as three calls of `make_node` leave them. -/
def threePages : RbTree :=
  node ⟨.black, 96, 0, 0x2000, 4096, 3⟩ (node ⟨.red, 128, 0, 0x3000, 4096, 3⟩ nil nil) (node ⟨.red, 64, 0, 0x1000, 4096, 3⟩ nil nil)

lemma threePages_redBlack : RedBlack threePages :=
  ⟨rfl, by simp [NoRedRed, threePages], 1, by simp [Height, threePages]⟩

lemma threePages_sorted : Sorted threePages := by simp [Sorted, threePages]

theorem deleteNode_unlinks_left :
    Unlinks 4 ⟨lay emptyStore 0 threePages, 96⟩ threePages ⟨128, 0, 0x3000, 4096, 3⟩ := by
  have h := represents_lay emptyStore (t := threePages) (by decide) (by decide)
  have hiff : Unlinks 4 _ _ _ ↔ _ := deleteNode_unlinks_iff (c := [])
    (f := ⟨.left, ⟨.black, 96, 0, 0x2000, 4096, 3⟩, node ⟨.red, 64, 0, 0x1000, 4096, 3⟩ nil nil⟩)
    (a := ⟨.red, 128, 0, 0x3000, 4096, 3⟩) h threePages_redBlack threePages_sorted (by simp [climb])
  exact hiff.mpr (by decide)

/-- The page on the right stays, and the one on the left goes. -/
theorem deleteNode_unlinks_sibling :
    ¬ Unlinks 4 ⟨lay emptyStore 0 threePages, 96⟩ threePages ⟨64, 0, 0x1000, 4096, 3⟩ := by
  have h := represents_lay emptyStore (t := threePages) (by decide) (by decide)
  exact h.not_unlinks_of_astray (c := [])
    (f := ⟨.right, ⟨.black, 96, 0, 0x2000, 4096, 3⟩, node ⟨.red, 128, 0, 0x3000, 4096, 3⟩ nil nil⟩)
    (a := ⟨.red, 64, 0, 0x1000, 4096, 3⟩) threePages_redBlack (by decide) (by simp [climb])

end WordOS.Utils
