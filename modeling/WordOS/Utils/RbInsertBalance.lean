import WordOS.Utils.RbInsert

/-! `insert_node` keeps a valid red-black tree valid. -/

namespace WordOS.Utils

open Machine BinaryTree Lib.Zipper Lib.ColoredTree

lemma outer_balanced {f g : Frame (Cell Entry)} {t : RbTree} {n : ℕ} (hf : f.value.color = .red)
    (ht : color t = .red) (hn : NoRedRed .black t) (hs : NoRedRed .red f.sibling) (hht : Height n t)
    (hhs : Height n f.sibling) : ∃ b u x, outer f g t = fork g.side b u x ∧ NoRedRed .black u ∧
      NoRedRed .red x ∧ Height n u ∧ Height n x := by
  by_cases hd : f.side = g.side
  · exact ⟨f.value, t, f.sibling, by rw [outer, if_pos hd, Frame.plug, hd], hn, hs, hht, hhs⟩
  · obtain ⟨a, x, y, rfl⟩ := exists_fork (t := t) (by rintro rfl; simp at ht) f.side
    rw [color_fork] at ht
    rw [noRedRed_fork, ht] at hn
    simp only [height_fork, ht] at hht
    refine ⟨a, fork f.side f.value y f.sibling, x, ?_, ?_, hn.2.1, ?_, hht.1⟩
    · rw [outer, if_neg hd, Frame.plug, rot_fork, Side.eq_flip hd, fork_flip]
    · rw [noRedRed_fork, hf]
      exact ⟨by simp, hn.2.2, hs⟩
    · simp only [height_fork, hf]
      exact ⟨hht.2, hhs⟩

lemma red_parent {f g : Frame (Cell Entry)} {c : RbPath} {n : ℕ} (hb : f.value.color ≠ .black)
    (hh : PathHeight n (f :: g :: c)) (hc : PathNoRedRed (f :: g :: c)) :
    f.value.color = .red ∧ g.value.color = .black ∧ (NoRedRed .red f.sibling ∧ Height n f.sibling) ∧
      (NoRedRed .black g.sibling ∧ Height n g.sibling) ∧ PathNoRedRed c ∧ PathHeight (n + 1) c := by
  have hf : f.value.color = .red := by
    rcases hk : f.value.color
    · rfl
    · exact (hb hk).elim
    · simp [PathHeight, hk] at hh
  obtain ⟨hfg, hsf, _, hsg, hc⟩ := hc
  simp only [PathHeight, hf] at hh
  have hg : g.value.color = .black := by
    rcases hk : g.value.color
    · exact (hfg ⟨hk, hf⟩).elim
    · rfl
    · simp [hk] at hh
  simp only [hg] at hh
  exact ⟨hf, hg, ⟨hf ▸ hsf, hh.1⟩, ⟨hg ▸ hsg, hh.2.1⟩, hc, hh.2.2⟩

/-- Along the way up only the node at the hole can be red under a red parent. -/
lemma insertFix_redBlack {c : RbPath} {t : RbTree} {n : ℕ} (ht : color t = .red) (hn : NoRedRed .black t)
    (hc : PathNoRedRed c) (hht : Height n t) (hhc : PathHeight n c) :
    ∃ u, insertFix c t = some u ∧ RedBlack u := by
  induction c, t using insertFix.induct generalizing n with
  | case1 t =>
    refine ⟨_, rfl, ?_, hn.paint_black, _, hht.paint_black ht⟩
    cases t <;> rfl
  | case2 f t hb => exact ⟨_, insertFix_black hb, (redBlack_plug ..).mpr ⟨by rwa [above, hb], hc, n, hht, hhc⟩⟩
  | case3 f t hb =>
    have hr : f.value.color ≠ .red := fun hr => hc.1 ⟨rfl, hr⟩
    rcases hk : f.value.color
    · exact (hr hk).elim
    · exact (hb hk).elim
    · simp [PathHeight, hk] at hhc
  | case4 f g c t hb => exact ⟨_, insertFix_black hb, (redBlack_plug ..).mpr ⟨by rwa [above, hb], hc, n, hht, hhc⟩⟩
  | case5 f g c t hb hu ih =>
    obtain ⟨hf, hg, hsf, hsg, hcf, hcg⟩ := red_parent hb hhc hc
    obtain ⟨u, he, hr⟩ := ih (n := n + 1) (by simp)
      (by
        simp only [noRedRed_fork, Cell.paint_color]
        exact ⟨by simp, ⟨by simp, hn, hsf.1.under (by simp)⟩, hsg.1.paint_black⟩)
      hcf
      (by
        simp only [height_fork, Cell.paint_color]
        exact ⟨⟨n, rfl, hht, hsf.2⟩, hsg.2.paint_black hu⟩)
      hcg
    refine ⟨u, ?_, hr⟩
    rw [insertFix, if_neg hb, if_pos hu, he, Option.map_some, paint_color hr.root_black]
  | case6 f g c t hb hu =>
    obtain ⟨hf, hg, hsf, hsg, hcf, hcg⟩ := red_parent hb hhc hc
    obtain ⟨b, u, x, ho, hnu, hnx, hhu, hhx⟩ := outer_balanced (g := g) hf ht hn hsf.1 hht hsf.2
    have hr : RedBlack (plug c (rot g.side
        (fork g.side (g.value.paint .red) (paint .black (outer f g t)) g.sibling))) := by
      rw [ho, paint_fork, rot_fork, redBlack_plug]
      simp only [noRedRed_fork, height_fork, Cell.paint_color]
      exact ⟨⟨by simp, hnu, by simp, hnx, hsg.1.under (by simp [hu])⟩, hcf, n + 1,
        ⟨n, rfl, hhu, hhx, hsg.2⟩, hcg⟩
    refine ⟨_, ?_, hr⟩
    rw [insertFix, if_neg hb, if_neg hu, paint_color hr.root_black]

lemma insertFix_descend {t : RbTree} (hb : RedBlack t) (size : ℕ) (e : Entry) :
    ∃ t', insertFix (descend size [] t) (node ⟨.red, e⟩ nil nil) = some t' ∧ RedBlack t' ∧
      vals t' = vals (plug (descend size [] t) (node ⟨.red, e⟩ nil nil)) ∧ (vals t').Perm (e :: vals t) := by
  have hg : plug (descend size [] t) nil = t := plug_descend ..
  have hcb : RedBlack (plug (descend size [] t) nil) := by rwa [hg]
  obtain ⟨_, hcn, n, hn, hch⟩ := (redBlack_plug ..).mp hcb
  obtain rfl : n = 0 := hn
  obtain ⟨t', he, hb'⟩ := insertFix_redBlack (t := node ⟨.red, e⟩ nil nil) rfl ⟨by simp, trivial, trivial⟩ hcn ⟨rfl, rfl⟩ hch
  have hv := insertFix_vals he
  refine ⟨t', he, hb', hv, ?_⟩
  rw [hv]
  nth_rewrite 2 [← hg]
  rw [vals_plug, vals_plug]
  simp

/-- `insert_node` on a valid tree with a fresh node; with a NULL root it returns at once. -/
theorem insertNode_redBlack {rest : Ptr → RbNode} {s : RbState} {t : RbTree} {fuel : ℕ} {p : Ptr}
    (h : Represents rest s t) (hb : RedBlack t) (ho : Sorted t) (hp : p ∉ ptrs t) (hz : p ≠ 0)
    (hl : (s.nodes p).left = 0) (hr : (s.nodes p).right = 0) (hf : (ptrs t).length < fuel) :
    ∃ s' t', insertNode fuel s p = .ok s' ∧ Represents rest s' t' ∧ RedBlack t' ∧ Sorted t' ∧
      (vals t').Perm (if s.root = 0 then [] else (s.nodes p).entry p :: vals t) := by
  by_cases ht : t = nil
  · subst ht
    have hr0 : s.root = 0 := h.root
    exact ⟨s, nil, by rw [insertNode, if_pos hr0]; rfl, h, hb, ho, by rw [if_pos hr0, vals_nil]⟩
  have hr0 : s.root ≠ 0 := h.root ▸ h.addr_ne_zero (c := []) ht
  have hi := h.insertNode ht hp hz hl hr (.inl hf)
  rw [paint_color hb.root_black] at hi
  set c := descend (s.nodes p).size [] t with hc
  obtain ⟨t', he, hb', hv, hperm⟩ := insertFix_descend hb (s.nodes p).size ((s.nodes p).entry p)
  rw [he] at hi
  obtain ⟨s', hs, h'⟩ := hi
  refine ⟨s', t', hs, h', hb', ?_, by rwa [if_neg hr0]⟩
  have hbt : Between (s.nodes p).size c := Between.descend ⟨by simp [before], by simp [after]⟩ ho
  rw [Sorted, hv]
  exact hbt.sorted (by rwa [hc, plug_descend]) rfl

/-- A second range of the same size goes below the only one. -/
theorem insertNode_redBlack_equal_sizes : ∃ s' t',
    insertNode 2 ⟨fun q => ⟨q, 4096 * q, 4096, 3, .black, 0, 0, 0⟩, 32⟩ 64 = .ok s' ∧
      Represents (fun q => ⟨q, 4096 * q, 4096, 3, .black, 0, 0, 0⟩) s' t' ∧ RedBlack t' ∧ Sorted t' ∧
      (vals t').Perm [⟨64, 64, 262144, 4096, 3⟩, ⟨32, 32, 131072, 4096, 3⟩] :=
  insertNode_redBlack (t := node ⟨.black, 32, 32, 131072, 4096, 3⟩ nil nil)
    ⟨rfl, ⟨rfl, trivial, trivial⟩, by decide, by decide, fun _ _ => rfl⟩
    ⟨rfl, ⟨by decide, trivial, trivial⟩, 1, 0, rfl, rfl, rfl⟩ (List.pairwise_singleton ..) (by decide)
    (by decide) rfl rfl (by decide)

end WordOS.Utils
