import WordOS.Utils.RbDeleteBalance

/-! `delete_node` on a tree when the root pointer it is given is not the tree's own. -/

namespace WordOS.Utils

open Machine BinaryTree Lib.Zipper Lib.ColoredTree

/-- When `delete_node`, without access to the root pointer of the tree, takes the node `a` out and leaves
the root where it is and black. -/
def KeepsRoot (c : RbPath) (a : Cell Entry) : RbTree → RbTree → Prop
  | nil, nil => c ≠ [] ∧ ¬ (a.color ≠ .red ∧ LiftsRoot c)
  | node _ _ _, nil => c ≠ []
  | nil, node _ _ _ => c ≠ []
  | node b x y, node e z w =>
    ¬ (color (rightmostNode (node b x y)) ≠ .red ∧ LiftsRoot (rightPath (⟨.left, a, node e z w⟩ :: c) (node b x y)))

instance (c : RbPath) (a : Cell Entry) (l r : RbTree) : Decidable (KeepsRoot c a l r) := by
  unfold KeepsRoot
  split <;> infer_instance

/-- What `delete_node` does, given the root pointer `root` of another tree: the tree `t` keeps its root. -/
def Confined (s : RbState) (root : Ptr) (t : RbTree) (e : Exec RbState) : Prop :=
  ∃ u t', e = .ok (u.reroot root) ∧ Represents u.nodes u t' ∧ u.root = s.root ∧ color t' = .black ∧
    ∀ q, q ∉ ptrs t → u.nodes q = s.nodes q

/-- It faults, writes `root`, or leaves no black root behind. -/
def Escapes (s : RbState) (root : Ptr) (e : Exec RbState) : Prop :=
  e = .error .fault ∨ ∃ u, e = .ok u ∧ (u.root ≠ root ∨ ∀ t', Represents u.nodes (u.reroot s.root) t' → color t' ≠ .black)

variable {rest : Ptr → RbNode} {s : RbState} {c c' : RbPath} {a b : Cell Entry} {l r t : RbTree} {f : Frame (Cell Entry)}
  {root : Ptr} {fuel : ℕ}

/-- Deleting the only node of a tree reads its missing parent. -/
lemma deleteNode_sole {p : Ptr} (hp0 : p ≠ 0) (hl : (s.nodes p).left = 0) (hr : (s.nodes p).right = 0)
    (hp : (s.nodes p).parent = 0) : deleteNode (fuel + 1) s p = .error .fault := by
  have hload : ∀ s : RbState, s.load p = .ok (s.nodes p) := fun s => by rw [RbState.load, if_neg hp0]
  obtain ⟨s₁, e₁, hp₁⟩ : ∃ s₁, (if p = s.root ∧ (s.nodes p).left = 0 ∧ (s.nodes p).right = 0 then
      freeNodeObj { s with root := 0 } p else pure s) = .ok s₁ ∧ (s₁.nodes p).parent = 0 := by
    split_ifs with hroot
    · rw [freeNodeObj, hload, ok_bind]
      split_ifs with hflags
      · exact ⟨_, rfl, hp⟩
      · exact ⟨_, by rw [RbState.modify, if_neg hp0], by rw [put_nodes_self]; exact hp⟩
    · exact ⟨s, rfl, hp⟩
  have hv : deleteViolations (fuel + 1) s₁ p = .ok (s₁.put p (·.setColor .black)) := by
    rw [deleteViolations, hload, ok_bind, if_pos hp₁, RbState.modify, if_neg hp0]
  have hnull : ∀ s : RbState, s.load 0 = .error .fault := fun _ => rfl
  by_cases hroot : p = s.root ∧ (s.nodes p).left = 0 ∧ (s.nodes p).right = 0
  · rw [if_pos hroot] at e₁
    simp only [deleteNode, hload, ok_bind, if_pos hroot, e₁, if_pos hroot.2, hv, hp, hnull, error_bind]
  · rw [if_neg hroot] at e₁
    simp only [deleteNode, hload, ok_bind, if_neg hroot, e₁, if_pos (And.intro hl hr), hv, hp, hnull, error_bind]

lemma Keeps.addr_mem (h : Keeps c c') (hc : c' ≠ []) (t u : RbTree) : addr (plug c' t) ∈ ptrs (plug c u) := by
  obtain ⟨f, p, rfl⟩ := List.exists_cons_of_ne_nil hc
  have hm := Represents.addr_plug_mem f p t
  have hv : vals (plug (f :: p) nil) = vals (plug c nil) := h.vals_plug rfl
  have hp : addr (plug (f :: p) t) ∈ ptrs (plug c nil) := by
    rw [ptrs, ← hv]
    exact (ptrs_plug ..).mem_iff.mpr (List.mem_append_left _ hm)
  have := (ptrs_plug c nil).mem_iff.mp hp
  rw [ptrs_nil, List.append_nil] at this
  exact (ptrs_plug ..).mem_iff.mpr (List.mem_append_left _ this)

lemma LeavesUnder.confined {t' : RbTree} {lifts : Prop} [Decidable lifts] {e : Exec RbState}
    (h : LeavesUnder s root lifts t e (some t')) (hr : s.root = addr t) (hl : ¬ lifts) (hc : color t' = .black) :
    Confined s root t e := by
  obtain ⟨u, he, hu, ha, hn, -⟩ := h
  rw [if_neg hl] at he
  exact ⟨u, t', he, hu, by rw [hu.root, ha hl, hr], hc, hn⟩

lemma LeavesUnder.escapes {t' : RbTree} {lifts : Prop} [Decidable lifts] {e : Exec RbState}
    (h : LeavesUnder s root lifts t e (some t')) (hl : lifts) (hm : addr t' ∈ ptrs t) (hroot : root ∉ ptrs t) :
    Escapes s root e := by
  obtain ⟨u, he, hu, -⟩ := h
  rw [if_pos hl, reroot_self] at he
  refine .inr ⟨u, he, .inl ?_⟩
  rintro rfl
  rw [hu.root] at hroot
  exact hroot hm

lemma rootColor_append {p c : RbPath} (hc : c ≠ []) : rootColor (p ++ c) = rootColor c := by
  induction p with
  | nil => rfl
  | cons f p ih => rw [List.cons_append, rootColor_cons (by simp [hc]), ih]

namespace Represents

lemma freeNodeObj_at (h : Represents rest s (plug c (node a l r))) : ∃ b s', freeNodeObj s a.val.ptr = .ok s' ∧
    b.val.ptr = a.val.ptr ∧ Represents rest s' (plug c (node b l r)) := by
  have hz := h.ptr_ne_zero (d := .left)
  have hl : s.load a.val.ptr = _ := h.load (d := .left)
  rw [freeNodeObj, hl, ok_bind]
  split_ifs with hf
  · exact ⟨a, s, rfl, rfl, h⟩
  · refine ⟨⟨a.color, { a.val with flags := a.val.flags &&& (2 ^ 32 - 1 - 2), base := 0 }⟩, _,
      by rw [RbState.modify, if_neg hz], rfl, ?_⟩
    refine h.put (d := .left) (b := ⟨a.color, { a.val with flags := a.val.flags &&& (2 ^ 32 - 1 - 2), base := 0 }⟩) rfl ?_
    exact fun _ _ _ => rfl

lemma deleteNode_leaf_astray {k : Color} (h : Represents rest s (plug (f :: c) (node a nil nil)))
    (hs : ¬ (a.val.size > f.value.val.size ↔ f.side = .right)) (hroot : a.val.ptr ≠ root)
    (hq : deleteFix (f :: c) a.color = some (k, c')) (hf : climb (f :: c) < fuel) :
    ∃ b f' p, c' = f' :: p ∧ b.val.ptr = a.val.ptr ∧ LeavesUnder s root (a.color ≠ .red ∧ LiftsRoot (f :: c)) (plug (f :: c) (node a nil nil))
      (deleteNode fuel (s.reroot root) a.val.ptr) (some (plug (⟨f'.side.flip, f'.value, node b nil nil⟩ :: p) nil)) := by
  have hl : s.load a.val.ptr = _ := h.load (d := .left)
  have hf' : climb (f :: c) < fuel ∨ Utils.deleteViolations fuel (s.reroot root) a.val.ptr ≠ .error .fuel := .inl hf
  rcases deleteViolations_below (e := .left) h hf' with ⟨hno, -⟩ | ⟨k, f', p, s₁, hq', hk, hside, hval, e₁, h₁⟩
  · rw [hq] at hno
    cases hno
  obtain ⟨rfl, rfl⟩ := Prod.mk.inj (Option.some.inj (hq.symm.trans hq'))
  replace h₁ : Represents rest s₁ (plug (f' :: p) (node (a.paint k) nil nil)) := h₁
  have ha₁ : s₁.load a.val.ptr = _ := h₁.load (d := .left) (a := a.paint k)
  have hf₁ : s₁.load f'.value.val.ptr = _ := Represents.load (c := p) (d := f'.side) (a := f'.value) h₁
  obtain ⟨s₂, e₂, h₂, hn₂, hfl₂⟩ := h₁.across.detach
  obtain ⟨b, s₃, e₃, hbp, h₃⟩ := h₂.across.freeNodeObj_at
  obtain ⟨s₃', e₃', hr₃, hn₃, ht₃⟩ := freeNodeObj_ok (s := s₂) (p := a.val.ptr) (h.ptr_ne_zero (d := .left))
  obtain rfl := Except.ok.inj (e₃.symm.trans e₃')
  have hr₁ : s₁.root = s₃.root := (hr₃.trans (modify_root e₂)).symm
  rw [Side.flip_flip] at h₃
  refine ⟨b, f', p, rfl, hbp, h.leavesUnder h₁ (hk.vals_plug rfl) ?_ (h₃.outside rfl fun _ _ => rfl).across (fun hno => ?_)
    (fun q hq => ?_) fun ht q hq => ?_⟩
  · simp only [Utils.deleteNode, reroot_load, reroot_root, hl, ok_bind, record, addr_nil, hroot, false_and, if_false,
      pure_eq, and_self, if_true, parentAddr]
    rw [e₁, ok_bind, reroot_load, ha₁, ok_bind, ← hval, reroot_load, hf₁, ok_bind, record_size, record_size, hr₁, Cell.paint_val]
    rw [← hside, ← hval] at hs
    by_cases hc : a.val.size > f'.value.val.size
    · have hd : f'.side.flip = .right := by
        cases hd : f'.side
        · rfl
        · exact (hs (iff_of_true hc hd)).elim
      rw [if_pos hc, ← hd, reroot_modify e₂, ok_bind, reroot_freeNodeObj e₃']
    · have hd : f'.side.flip = .left := by
        cases hd : f'.side
        · exact (hs (iff_of_false hc (by simp [hd]))).elim
        · rfl
      rw [if_neg hc, ← hd, reroot_modify e₂, ok_bind, reroot_freeNodeObj e₃']
  · rw [← addr_plug_congr (List.cons_ne_nil f c) nil, ← (deleteFix_rebalances hq).addr_plug (fun hk hc => hno ⟨hk, hc⟩) (u := nil) rfl]
    exact addr_plug_of_addr p (by simp [Frame.plug])
  · rw [hn₃ q, hn₂ q]
    · rintro rfl
      exact hq ((ptrs_plug ..).mem_iff.mpr (by simp [pathPtrs]))
    · rintro rfl
      exact hq ((ptrs_plug ..).mem_iff.mpr (List.mem_append_right _ (mem_ptrs_node.mpr (.inl rfl))))
  · exact ht₃ q (by rw [RbNode.Taken, hfl₂]; exact ht q hq)

lemma deleteNode_lone_foreign {d : Side} (h : Represents rest s (plug c (fork d a t nil)))
    (hb : RedBlack (plug c (fork d a t nil))) (ht : t ≠ nil) (hroot : a.val.ptr ≠ root)
    (hf : climb (⟨d, a, nil⟩ :: c) < fuel) :
    (c ≠ [] → Confined s root (plug c (fork d a t nil)) (deleteNode fuel (s.reroot root) a.val.ptr)) ∧
      (c = [] → Escapes s root (deleteNode fuel (s.reroot root) a.val.ptr)) := by
  obtain ⟨hn, -, n, hh, -⟩ := (redBlack_plug ..).mp hb
  obtain ⟨-, b, rfl, hbr⟩ := (lone_child hn hh).resolve_left ht
  obtain ⟨k, -, hk, hL⟩ := (h.deleteNode_single_reroot (.inl hf)).2 hbr
  refine ⟨fun hc => hL.confined h.root id ?_, fun hc => ?_⟩
  · rw [color_plug hc, rootColor_of_redBlack hb]
  · obtain ⟨u, he, hu, ha, -⟩ := hL
    rw [if_neg id] at he
    refine .inr ⟨_, he, .inr fun t' ht' => ?_⟩
    have hur : u.root = s.root := by rw [hu.root, ha id, h.root]
    rw [reroot_reroot, ← hur, reroot_self] at ht'
    rw [ht'.unique hu, hc, plug_nil, color_node, hk hroot]
    exact fun h => nomatch h

lemma deleteNode_foreign (h : Represents rest s (plug c (node a l r))) (hb : RedBlack (plug c (node a l r)))
    (hroot : root ∉ ptrs (plug c (node a l r))) (hf : 2 * (ptrs (plug c (node a l r))).length < fuel) :
    (KeepsRoot c a l r → Confined s root (plug c (node a l r)) (deleteNode fuel (s.reroot root) a.val.ptr)) ∧
      (¬ KeepsRoot c a l r → Escapes s root (deleteNode fuel (s.reroot root) a.val.ptr)) := by
  have hlen := (ptrs_plug c (node a l r)).length_eq
  have hclimb := climb_le c
  have ha : a.val.ptr ∈ ptrs (node a l r) := mem_ptrs_node.mpr (.inl rfl)
  have hpos : 0 < (ptrs (node a l r)).length := List.length_pos_of_mem ha
  have har : a.val.ptr ≠ root := by
    rintro rfl
    exact hroot ((ptrs_plug ..).mem_iff.mpr (List.mem_append_right _ ha))
  rw [List.length_append] at hlen
  have hlone : ∀ d, climb (⟨d, a, nil⟩ :: c) < fuel := fun d => (climb_lone_le d a c).trans_lt (by omega)
  rcases l with _ | ⟨b₀, x₀, y₀⟩ <;> rcases r with _ | ⟨e, z, w⟩
  · rcases c with _ | ⟨f, c⟩
    · refine ⟨fun hk => (hk.1 rfl).elim, fun _ => .inl ?_⟩
      have hn : (s.reroot root).nodes a.val.ptr = _ := h.nodes_eq (c := []) (d := .left) (a := a)
      obtain ⟨fuel, rfl⟩ : ∃ n, fuel = n + 1 := ⟨fuel - 1, by omega⟩
      exact deleteNode_sole (h.ptr_ne_zero (c := []) (d := .left)) (by rw [hn]; rfl) (by rw [hn]; rfl) (by rw [hn]; rfl)
    · obtain ⟨q, hq⟩ := exists_deleteFix_of_redBlack hb
      have hk := (deleteFix_rebalances hq).keeps
      have hcol := (deleteFix_rebalances hq).rootColor (rootColor_of_redBlack hb)
      obtain ⟨t', hL, ha', hc'⟩ : ∃ t', LeavesUnder s root (a.color ≠ .red ∧ LiftsRoot (f :: c)) (plug (f :: c) (node a nil nil))
          (deleteNode fuel (s.reroot root) a.val.ptr) (some t') ∧ addr t' = addr (plug q.2 nil) ∧ color t' = rootColor q.2 := by
        by_cases hs : a.val.size > f.value.val.size ↔ f.side = .right
        · have hL := h.deleteNode_leaf_reroot hs har (.inl (show _ < fuel by omega))
          rw [hq] at hL
          exact ⟨_, hL, rfl, color_plug (fun hn => List.cons_ne_nil _ _ (hk.eq_nil hn)) _⟩
        · obtain ⟨b, f', p, hp, -, hL⟩ := h.deleteNode_leaf_astray hs har hq (show _ < fuel by omega)
          refine ⟨_, hL, ?_, ?_⟩
          · rw [hp]
            exact addr_plug_of_addr p (by simp [Frame.plug])
          · rw [color_plug (List.cons_ne_nil _ _), hp]
            rcases p with _ | ⟨g, p⟩ <;> rfl
      refine ⟨fun hk => hL.confined h.root hk.2 (hc'.trans hcol), fun hk' => hL.escapes ?_ ?_ hroot⟩
      · by_contra hl
        exact hk' ⟨List.cons_ne_nil _ _, hl⟩
      · rw [ha']
        exact hk.addr_mem (fun hn => List.cons_ne_nil _ _ (hk.eq_nil hn)) _ _
  · have hd := h.deleteNode_lone_foreign (d := .right) hb (by simp) har (hlone .right)
    exact ⟨hd.1, fun hk => hd.2 (not_not.mp hk)⟩
  · have hd := h.deleteNode_lone_foreign (d := .left) hb (by simp) har (hlone .left)
    exact ⟨hd.1, fun hk => hd.2 (not_not.mp hk)⟩
  · obtain ⟨b, x, q, hm, hb', hq⟩ :=
      exists_predecessor (c := ⟨.left, a, node e z w⟩ :: c) (l := node b₀ x₀ y₀) (by simp) hb
    rcases h.deleteNode_both_reroot (by simp) (by simp) hm (.inl (show _ < fuel by omega)) with
      ⟨hno, -⟩ | ⟨k, p, f, c', k', hq', hk, hfs, hfv, -, hk₁, hk₂, hL⟩
    · rw [hq] at hno
      cases hno
    have hlast : rootColor (p ++ f :: c') = .black :=
      (deleteFix_rebalances hq').rootColor (rootColor_of_redBlack hb')
    have hcol : color (plug (p ++ ⟨.left, ⟨k', b.val.copy a.val⟩, f.sibling⟩ :: c') nil) = .black := by
      rw [color_plug (by simp)]
      by_cases hc' : c' = []
      · subst hc'
        rw [rootColor_last] at hlast ⊢
        by_cases hr : a.val.ptr = if b.color ≠ .red ∧ LiftsRoot (rightPath (⟨.left, a, node e z w⟩ :: c) (node b₀ x₀ y₀)) then
            addr (plug (p ++ [f]) nil) else root
        · exact hk₁ hr
        · rw [← hlast]
          exact hk₂ hr
      · rw [← hlast, rootColor_append (by simp), rootColor_append (by simp), rootColor_cons hc', rootColor_cons hc']
    refine ⟨fun hk => hL.confined h.root ?_ hcol, fun hk' => hL.escapes ?_ ?_ hroot⟩
    · rwa [KeepsRoot, hm, color_node] at hk
    · rwa [KeepsRoot, hm, color_node, not_not] at hk'
    · have hsplit := addr_plug_split (f := f) (p := p) (c := c') (b := ⟨k', b.val.copy a.val⟩) (by rw [hfv]; rfl) nil
      rw [hfs] at hsplit
      rw [hsplit]
      have := hk.addr_mem (by simp) nil (node b x nil)
      rwa [← hm, plug_rightPath] at this

end Represents

end WordOS.Utils
