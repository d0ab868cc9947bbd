import WordOS.Utils.RbInsertFix

/-! `insert_node` on represented trees: where the new node is hung, and that it is rebalanced. -/

namespace WordOS.Utils

open Machine BinaryTree Lib.Zipper Lib.ColoredTree

/-- In-order sizes do not decrease; equal sizes are allowed. -/
def Sorted (t : RbTree) : Prop := (vals t).Pairwise fun e e' => e.size ≤ e'.size

/-- The way down of `insert_node`, to the gap where a range of the given size is hung. -/
def descend (size : ℕ) : RbPath → RbTree → RbPath
  | c, nil => c
  | c, node a l r =>
    if size > a.val.size then descend size (⟨.right, a, l⟩ :: c) r else descend size (⟨.left, a, r⟩ :: c) l

@[simp] lemma plug_descend (size : ℕ) (c : RbPath) (t : RbTree) : plug (descend size c t) nil = plug c t := by
  induction t generalizing c with
  | nil => rfl
  | node a l r ihl ihr =>
    rw [descend]
    split
    · exact ihr _
    · exact ihl _

lemma descend_ne_nil (size : ℕ) (c : RbPath) {t : RbTree} (h : t ≠ nil) : descend size c t ≠ [] := by
  intro hd
  have := plug_descend size c t
  rw [hd, plug_nil] at this
  exact plug_ne_nil h this.symm

lemma length_le_pathPtrs (c : RbPath) : c.length ≤ (pathPtrs c).length := by
  induction c with
  | nil => simp
  | cons f c ih => simp only [List.length_cons, pathPtrs, List.length_append]; omega

/-- Sizes before the gap of a path are at most `size`, and after it at least. -/
structure Between (size : ℕ) (c : RbPath) : Prop where
  before : ∀ a ∈ before c, a.val.size ≤ size
  after : ∀ a ∈ after c, size ≤ a.val.size

lemma Between.descend {size : ℕ} {c : RbPath} {t : RbTree} (h : Between size c) (hs : Sorted (plug c t)) :
    Between size (descend size c t) := by
  induction t generalizing c with
  | nil => exact h
  | node a l r ihl ihr =>
    have hv := hs
    rw [Sorted, vals_plug, vals_node, List.pairwise_append, List.pairwise_append, List.pairwise_append] at hv
    obtain ⟨⟨_, ⟨_, hr, hlr⟩, _⟩, _⟩ := hv
    rw [Utils.descend]
    split
    · refine ihr ⟨?_, by simpa [Lib.Zipper.after, Frame.after] using h.after⟩ hs
      intro b hb
      simp only [Lib.Zipper.before, Frame.before, List.mem_append, List.mem_singleton] at hb
      rcases hb with hb | hb | rfl
      · exact h.before b hb
      · exact (hlr b.val (List.mem_map_of_mem hb) a.val (by simp)).trans (by omega)
      · omega
    · refine ihl ⟨by simpa [Lib.Zipper.before, Frame.before] using h.before, ?_⟩ hs
      intro b hb
      simp only [Lib.Zipper.after, Frame.after, List.mem_append, List.mem_cons] at hb
      rcases hb with (rfl | hb) | hb
      · omega
      · exact le_trans (by omega) ((List.pairwise_cons.mp hr).1 b.val (List.mem_map_of_mem hb))
      · exact h.after b hb

lemma Between.sorted {size : ℕ} {c : RbPath} (h : Between size c) (hs : Sorted (plug c nil)) {a : Cell Entry}
    (ha : a.val.size = size) : Sorted (plug c (node a nil nil)) := by
  rw [Sorted, vals_plug] at hs ⊢
  simp only [vals_nil, List.append_nil, vals_node, List.nil_append, List.append_assoc, List.singleton_append,
    List.pairwise_append, List.pairwise_cons, List.mem_cons, forall_eq_or_imp] at hs ⊢
  refine ⟨hs.1, ⟨?_, hs.2.1⟩, ?_⟩
  · rintro e he
    obtain ⟨b, hb, rfl⟩ := List.mem_map.mp he
    rw [ha]
    exact h.after b hb
  · rintro e he
    refine ⟨?_, hs.2.2 e he⟩
    obtain ⟨b, hb, rfl⟩ := List.mem_map.mp he
    rw [ha]
    exact h.before b hb

def RbNode.entry (p : Ptr) (n : RbNode) : Entry := ⟨p, n.id, n.base, n.size, n.flags⟩

lemma insertFix_black {f : Frame (Cell Entry)} {c : RbPath} {t : RbTree} (h : f.value.color = .black) :
    insertFix (f :: c) t = some (plug (f :: c) t) := by
  cases c <;> rw [insertFix, if_pos h]
  rfl

namespace Represents

variable {rest : Ptr → RbNode} {s : RbState} {c : RbPath} {t : RbTree}

lemma insertDescent {fuel size : ℕ} (h : Represents rest s (plug c t))
    (hf : (ptrs t).length < fuel ∨
      insertDescent fuel s size (addr t) (parentAddr c) (holeSide c) ≠ .error .fuel) :
    insertDescent fuel s size (addr t) (parentAddr c) (holeSide c) =
      .ok (parentAddr (descend size c t), holeSide (descend size c t)) := by
  induction fuel generalizing c t with
  | zero => simp [Utils.insertDescent] at hf
  | succ fuel ih =>
    cases t with
    | nil => simp [Utils.insertDescent, descend]
    | node a l r =>
      have hl := h.load (d := .left) (a := a)
      have hz := h.ptr_ne_zero (d := .left) (a := a)
      have hn := length_ptrs_node a l r
      simp only [Utils.insertDescent, addr_node, if_neg hz, hl, ok_bind, record_size, descend] at hf ⊢
      split at hf
      · rw [if_pos ‹_›, if_pos ‹_›]
        exact ih (c := ⟨.right, a, l⟩ :: c) (t := r) h (hf.imp_left (by omega))
      · rw [if_neg ‹_›, if_neg ‹_›]
        exact ih (c := ⟨.left, a, r⟩ :: c) (t := l) h (hf.imp_left (by omega))

lemma attach {s' : RbState} {a : Cell Entry} (h : Represents rest s (plug c nil)) (hc : c ≠ [])
    (ha : a.val.ptr ∉ ptrs (plug c nil)) (hz : a.val.ptr ≠ 0) (hr : s'.root = s.root)
    (hp : s'.nodes (parentAddr c) = (s.nodes (parentAddr c)).setChild (holeSide c) a.val.ptr)
    (hn : s'.nodes a.val.ptr = record .left a 0 0 (parentAddr c))
    (ho : ∀ q, q ≠ a.val.ptr → q ≠ parentAddr c → s'.nodes q = s.nodes q) :
    Represents rest s' (plug c (node a nil nil)) := by
  have hperm := ptrs_plug c (node a nil nil)
  have hperm₀ : (ptrs (plug c nil)).Perm (pathPtrs c) := by simpa using ptrs_plug c nil
  have hnew : ptrs (node a nil nil) = [a.val.ptr] := by simp [ptrs]
  rw [hnew] at hperm
  have hd := hperm₀.nodup_iff.mp h.distinct
  have hz₀ : 0 ∉ pathPtrs c := fun hm => h.nonnull (hperm₀.mem_iff.mpr hm)
  have ha₀ : a.val.ptr ∉ pathPtrs c := fun hm => ha (hperm₀.mem_iff.mpr hm)
  have hpm : parentAddr c ∈ pathPtrs c := by
    rcases c with _ | ⟨f, c⟩
    · exact (hc rfl).elim
    · exact List.mem_cons_self
  have hp0 : parentAddr c ≠ 0 := fun he => hz₀ (he ▸ hpm)
  have hpath : RepPath s'.nodes s'.root c a.val.ptr := by
    refine h.focus.1.rehole (by rw [if_neg hp0, hr]) (fun _ => hp) ?_ hd hz₀
    intro q hq hqp
    exact ho q (by rintro rfl; exact ha₀ hq) hqp
  obtain ⟨hroot, hrep⟩ := (rep_plug c (node a nil nil)).mpr ⟨hpath, hn, trivial, trivial⟩
  refine ⟨hroot, hrep, ?_, ?_, ?_⟩
  · rw [hperm.nodup_iff, List.nodup_append]
    refine ⟨hd, by simp, fun q hq r hr he => ha₀ ?_⟩
    rwa [← List.mem_singleton.mp hr, ← he]
  · rw [hperm.mem_iff]
    simp [hz₀, Ne.symm hz]
  · intro q hq
    rw [hperm.mem_iff] at hq
    simp only [List.mem_append, List.mem_singleton, not_or] at hq
    rw [ho q hq.2 (by rintro rfl; exact hq.1 hpm), h.rest q (by rw [hperm₀.mem_iff]; exact hq.1)]

lemma hang {f : Frame (Cell Entry)} {p : Ptr} (h : Represents rest s (plug (f :: c) nil))
    (hp : p ∉ ptrs (plug (f :: c) nil)) (hz : p ≠ 0) (hl : (s.nodes p).left = 0) (hr : (s.nodes p).right = 0) :
    ∃ s₁ s₂ s₃, s.modify f.value.val.ptr (·.setChild f.side p) = .ok s₁ ∧
      s₁.modify p (·.setParent f.value.val.ptr) = .ok s₂ ∧ s₂.modify p (·.setColor .red) = .ok s₃ ∧
      Represents rest s₃ (plug (f :: c) (node ⟨.red, (s.nodes p).entry p⟩ nil nil)) := by
  have hpar : f.value.val.ptr ≠ 0 := h.ptr_ne_zero
  have hfp : f.value.val.ptr ≠ p := by
    rintro rfl
    exact hp ((ptrs_plug _ _).mem_iff.mpr (by simp [pathPtrs]))
  refine ⟨s.put f.value.val.ptr (·.setChild f.side p), _, _, by rw [RbState.modify, if_neg hpar],
    by rw [RbState.modify, if_neg hz], by rw [RbState.modify, if_neg hz], ?_⟩
  refine h.attach (by simp) hp hz rfl ?_ ?_ ?_
  · rw [parentAddr, put_nodes_ne hfp, put_nodes_ne hfp, put_nodes_self, holeSide]
    rfl
  · change (RbState.put _ p _).nodes p = _
    rw [put_nodes_self, put_nodes_self, put_nodes_ne (Ne.symm hfp)]
    simp [RbNode.setParent, RbNode.setColor, RbNode.entry, record, parentAddr, hl, hr]
  · intro q hq hqf
    change q ≠ p at hq
    rw [parentAddr] at hqf
    rw [put_nodes_ne hq, put_nodes_ne hq, put_nodes_ne hqf]

lemma insertNode {fuel : ℕ} {p : Ptr} (h : Represents rest s t) (ht : t ≠ nil) (hp : p ∉ ptrs t) (hz : p ≠ 0)
    (hl : (s.nodes p).left = 0) (hr : (s.nodes p).right = 0)
    (hf : (ptrs t).length < fuel ∨ insertNode fuel s p ≠ .error .fuel) :
    Yields rest (Utils.insertNode fuel s p)
      (insertFix (descend (s.nodes p).size [] (paint .black t)) (node ⟨.red, (s.nodes p).entry p⟩ nil nil)) := by
  have hr0 : s.root ≠ 0 := h.root ▸ h.addr_ne_zero (c := []) ht
  obtain ⟨s₁, e₁, h₁⟩ := h.paintRoot ht .black
  have hptrs : ptrs (paint .black t) = ptrs t := by simp [ptrs]
  have hp₁ : s₁.nodes p = s.nodes p := by rw [h₁.rest p (by rwa [hptrs]), h.rest p hp]
  have hdesc : _ → Utils.insertDescent fuel s₁ (s.nodes p).size _ _ _ = _ := h₁.insertDescent (c := []) (t := paint .black t)
  have hfc := plug_descend (s.nodes p).size [] (paint .black t)
  obtain ⟨f, c, hc⟩ := List.exists_cons_of_ne_nil
    (descend_ne_nil (s.nodes p).size [] (paint_ne_nil (k := .black) ht))
  rw [hc] at hfc hdesc ⊢
  rw [plug_nil] at hfc
  have hlen : (f :: c).length ≤ (ptrs t).length := by
    refine (length_le_pathPtrs _).trans (le_of_eq ?_)
    rw [← hptrs, ← hfc]
    simpa using (ptrs_plug (f :: c) nil).length_eq.symm
  rw [← h₁.root, parentAddr, parentAddr, holeSide, holeSide, hptrs] at hdesc
  rw [← hfc] at h₁
  obtain ⟨s₂, s₃, s₄, e₂, e₃, e₄, h₄⟩ :=
    h₁.hang (by rwa [hfc, hptrs]) hz (by rw [hp₁, hl]) (by rw [hp₁, hr])
  rw [hp₁] at h₄
  have hleaf := h₄.load (d := .left) (a := ⟨.red, (s.nodes p).entry p⟩)
  have hcol := (Represents.load (c := c) h₄)
  have hlp : s₁.load p = .ok (s.nodes p) := by rw [RbState.load, if_neg hz, hp₁]
  simp only [Utils.insertNode, if_neg hr0, e₁, ok_bind, hlp] at hf ⊢
  have hd := hdesc (hf.imp_right (mt fun he => by rw [he, error_bind]))
  rw [hd, ok_bind] at hf ⊢
  change s₄.load p = _ at hleaf
  simp only [e₂, e₃, e₄, ok_bind, hleaf, record_parent, parentAddr, hcol, record_color] at hf ⊢
  by_cases hb : f.value.color = .black
  · rw [insertFix_black hb, if_neg (by simpa using hb)]
    exact ⟨s₄, rfl, h₄⟩
  · rw [if_pos hb] at hf ⊢
    exact h₄.insertViolations (by simp) (hf.imp_left (by omega))

end Represents

end WordOS.Utils
