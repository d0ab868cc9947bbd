import WordOS.Utils.RbStore

/-! `delete_node` stays among the nodes in use, and leaves their slots of the store page taken. -/

namespace WordOS.Utils

open Machine Lib.Zipper Lib.ColoredTree

variable {U : Ptr → Prop} {s s' : RbState} {p q node sibling gone : Ptr} {d sdir : Side} {fuel : ℕ}

namespace Closed

lemma siblingOf (h : Closed U s) (hp : Ref U node) (hr : siblingOf s node = .ok (q, d)) : Ref U q := by
  obtain ⟨n, hn, hr⟩ := bind_eq_ok.mp hr
  obtain ⟨m, hm, hr⟩ := bind_eq_ok.mp hr
  have hw := h.load (h.load hp hn).parent hm
  split_ifs at hr
  · obtain ⟨rfl, rfl⟩ := Prod.mk.inj (Except.ok.inj hr)
    exact hw.right
  · obtain ⟨rfl, rfl⟩ := Prod.mk.inj (Except.ok.inj hr)
    exact hw.left

lemma alignNephew (h : Closed U s) (hp : Ref U sibling) (hr : alignNephew s sdir sibling = .ok s') : Stays U s s' := by
  obtain ⟨s₁, h₁, hr⟩ := bind_eq_ok.mp hr
  replace h₁ := h.setColor hp h₁
  obtain ⟨n, hn, hr⟩ := bind_eq_ok.mp hr
  obtain ⟨s₂, h₂, hr⟩ := bind_eq_ok.mp hr
  replace h₂ := h₁.trans (h₁.closed.setColor ((h₁.closed.load hp hn).child _) h₂)
  exact h₂.trans (h₂.closed.rotate hp hr)

lemma borrow (h : Closed U s) (hp : Ref U node) (hq : Ref U sibling) (hr : borrow s sdir node sibling = .ok s') :
    Stays U s s' := by
  obtain ⟨n, hn, hr⟩ := bind_eq_ok.mp hr
  have hparent : Ref U n.parent := (h.load hp hn).parent
  obtain ⟨m, -, hr⟩ := bind_eq_ok.mp hr
  obtain ⟨sib, -, hr⟩ := bind_eq_ok.mp hr
  obtain ⟨s₁, h₁, hr⟩ := bind_eq_ok.mp hr
  replace h₁ := h.setColor hparent h₁
  obtain ⟨s₂, h₂, hr⟩ := bind_eq_ok.mp hr
  replace h₂ := h₁.trans (h₁.closed.setColor hq h₂)
  obtain ⟨s₃, h₃, hr⟩ := bind_eq_ok.mp hr
  replace h₃ := h₂.trans (h₂.closed.rotate hparent h₃)
  obtain ⟨s₄, h₄, hr⟩ := bind_eq_ok.mp hr
  replace h₄ := h₃.trans (h₃.closed.setColor hp h₄)
  obtain ⟨n₄, hn₄, hr⟩ := bind_eq_ok.mp hr
  obtain ⟨m₄, hm₄, hr⟩ := bind_eq_ok.mp hr
  have htop : Ref U m₄.parent := (h₄.closed.load (h₄.closed.load hp hn₄).parent hm₄).parent
  obtain ⟨top, ht, hr⟩ := bind_eq_ok.mp hr
  exact h₄.trans (h₄.closed.setColor ((h₄.closed.load htop ht).child _) hr)

lemma deleteViolations (h : Closed U s) (hp : Ref U node) (hr : deleteViolations fuel s node = .ok s') : Stays U s s' := by
  induction fuel generalizing s s' node with
  | zero => cases hr
  | succ fuel ih =>
    rw [Utils.deleteViolations] at hr
    obtain ⟨n, hn, hr⟩ := bind_eq_ok.mp hr
    have hparent : Ref U n.parent := (h.load hp hn).parent
    dsimp only at hr
    split_ifs at hr
    · exact h.setColor hp hr
    · obtain rfl := Except.ok.inj hr
      exact h.stays
    obtain ⟨⟨sibling, sdir⟩, hs, hr⟩ := bind_eq_ok.mp hr
    have hsibling : Ref U sibling := h.siblingOf hp hs
    obtain ⟨s₁, h₁, hr⟩ := bind_eq_ok.mp hr
    replace h₁ := h.setColor hp h₁
    obtain ⟨sib, -, hr⟩ := bind_eq_ok.mp hr
    obtain ⟨near, -, hr⟩ := bind_eq_ok.mp hr
    obtain ⟨far, -, hr⟩ := bind_eq_ok.mp hr
    dsimp only at hr
    by_cases hblack : sib.color = .black ∧ near = .black ∧ far = .black
    · rw [if_pos hblack] at hr
      obtain ⟨s₂, h₂, hr⟩ := bind_eq_ok.mp hr
      replace h₂ := h₁.trans (h₁.closed.setColor hp h₂)
      obtain ⟨s₃, h₃, hr⟩ := bind_eq_ok.mp hr
      replace h₃ := h₂.trans (h₂.closed.setColor hsibling h₃)
      obtain ⟨m, -, hr⟩ := bind_eq_ok.mp hr
      split_ifs at hr
      · obtain ⟨s₄, h₄, hr⟩ := bind_eq_ok.mp hr
        replace h₄ := h₃.trans (h₃.closed.setColor hparent h₄)
        exact h₄.trans (ih h₄.closed hparent hr)
      · exact h₃.trans (h₃.closed.setColor hparent hr)
    rw [if_neg hblack] at hr
    by_cases hred : sib.color = .red
    · rw [if_pos hred] at hr
      obtain ⟨s₂, h₂, hr⟩ := bind_eq_ok.mp hr
      replace h₂ := h₁.trans (h₁.closed.setColor hsibling h₂)
      obtain ⟨s₃, h₃, hr⟩ := bind_eq_ok.mp hr
      replace h₃ := h₂.trans (h₂.closed.setColor hparent h₃)
      obtain ⟨s₄, h₄, hr⟩ := bind_eq_ok.mp hr
      replace h₄ := h₃.trans (h₃.closed.rotate hparent h₄)
      exact h₄.trans (ih h₄.closed hp hr)
    rw [if_neg hred] at hr
    by_cases hb : sib.color = .black
    · rw [if_pos hb] at hr
      obtain ⟨s₂, h₂, hr⟩ := ite_bind_eq_ok hr
      replace h₂ : Stays U s₁ s₂ := by
        split_ifs at h₂
        · exact h₁.closed.alignNephew hsibling h₂
        · obtain rfl := Except.ok.inj h₂
          exact h₁.closed.stays
      replace h₂ := h₁.trans h₂
      obtain ⟨⟨sibling', d⟩, hs', hr⟩ := bind_eq_ok.mp hr
      dsimp only at hr
      split_ifs at hr
      · exact h₂.trans (h₂.closed.borrow hp (h₂.closed.siblingOf hp hs') hr)
      · obtain rfl := Except.ok.inj hr
        exact h₂
    · rw [if_neg hb] at hr
      obtain rfl := Except.ok.inj hr
      exact h₁

/-- Only bit 1 of the flags is cleared: the slot is still passed over. -/
lemma freeNodeObj (h : Closed U s) (hp : Ref U p) (hr : freeNodeObj s p = .ok s') : Stays U s s' := by
  obtain ⟨n, -, hr⟩ := bind_eq_ok.mp hr
  split_ifs at hr
  · obtain rfl := Except.ok.inj hr
    exact h.stays
  · refine h.modify hp ?_ hr
    intro m hm
    refine ⟨hm.left, hm.right, hm.parent, ?_⟩
    rw [RbNode.Taken, Nat.and_assoc]
    exact hm.taken

lemma rightmost (h : Closed U s) (hp : Ref U p) (hr : rightmost fuel s p = .ok q) : Ref U q := by
  induction fuel generalizing p with
  | zero => cases hr
  | succ fuel ih =>
    rw [Utils.rightmost] at hr
    split_ifs at hr
    · obtain rfl := Except.ok.inj hr
      exact hp
    obtain ⟨n, hn, hr⟩ := bind_eq_ok.mp hr
    dsimp only at hr
    split_ifs at hr
    · obtain rfl := Except.ok.inj hr
      exact hp
    · exact ih (h.load hp hn).right hr

lemma settle (h : Closed U s) (hp : Ref U node) (hq : Ref U gone) (hr : settle s node gone = .ok s') : Stays U s s' := by
  obtain ⟨s₁, h₁, hr⟩ := ite_bind_eq_ok hr
  split_ifs at h₁
  · replace h₁ := h.setColor hp h₁
    exact h₁.trans (h₁.closed.freeNodeObj hq hr)
  · obtain rfl := Except.ok.inj h₁
    exact h.freeNodeObj hq hr

lemma copy {src : RbNode} (h : Closed U s) (hp : Ref U p) (hs : src.Within U) (hr : s.modify p (src.copy ·) = .ok s') :
    Stays U s s' := h.modify hp (fun _ hm => hm.copy hs) hr

lemma unlinkMin (h : Closed U s) (hp : Ref U node) (hq : Ref U q) (hr : unlinkMin s node q = .ok s') : Stays U s s' := by
  obtain ⟨m, hm, hr⟩ := bind_eq_ok.mp hr
  obtain ⟨s₁, h₁, hr⟩ := bind_eq_ok.mp hr
  replace h₁ := h.copy hp (h.load hq hm) h₁
  obtain ⟨n, -, hr⟩ := bind_eq_ok.mp hr
  dsimp only at hr
  split_ifs at hr
  · obtain ⟨s₂, h₂, hr⟩ := bind_eq_ok.mp hr
    replace h₂ := h₁.trans (h₁.closed.setChild hp (.inl rfl) h₂)
    exact h₂.trans (h₂.closed.settle hp hq hr)
  · obtain ⟨m₁, hm₁, hr⟩ := bind_eq_ok.mp hr
    obtain ⟨s₂, h₂, hr⟩ := bind_eq_ok.mp hr
    replace h₂ := h₁.trans (h₁.closed.setChild (h₁.closed.load hq hm₁).parent (.inl rfl) h₂)
    exact h₂.trans (h₂.closed.settle hp hq hr)

lemma deleteNode (h : Closed U s) (hp : Ref U node) (hr : deleteNode fuel s node = .ok s') : Stays U s s' := by
  obtain ⟨n, hn, hr⟩ := bind_eq_ok.mp hr
  have hw := h.load hp hn
  obtain ⟨s₁, h₁, hr⟩ := ite_bind_eq_ok hr
  replace h₁ : Stays U s s₁ := by
    split_ifs at h₁
    · have hroot : Stays U s { s with root := 0 } := h.setRoot (.inl rfl)
      exact hroot.trans (hroot.closed.freeNodeObj hp h₁)
    · obtain rfl := Except.ok.inj h₁
      exact h.stays
  dsimp only at hr
  by_cases hleaf : n.left = 0 ∧ n.right = 0
  · rw [if_pos hleaf] at hr
    obtain ⟨s₂, h₂, hr⟩ := bind_eq_ok.mp hr
    replace h₂ := h₁.trans (h₁.closed.deleteViolations hp h₂)
    obtain ⟨m, -, hr⟩ := bind_eq_ok.mp hr
    obtain ⟨k, -, hr⟩ := bind_eq_ok.mp hr
    obtain ⟨s₃, h₃, hr⟩ := ite_bind_eq_ok hr
    replace h₃ : Stays U s₂ s₃ := by
      split_ifs at h₃
      · exact h₂.closed.setChild hw.parent (.inl rfl) h₃
      · exact h₂.closed.setChild hw.parent (.inl rfl) h₃
    replace h₃ := h₂.trans h₃
    exact h₃.trans (h₃.closed.freeNodeObj hp hr)
  rw [if_neg hleaf] at hr
  by_cases hboth : n.left ≠ 0 ∧ n.right ≠ 0
  · rw [if_pos hboth] at hr
    obtain ⟨min, hm, hr⟩ := bind_eq_ok.mp hr
    have hmin : Ref U min := h₁.closed.rightmost hw.left hm
    obtain ⟨s₂, h₂, hr⟩ := bind_eq_ok.mp hr
    replace h₂ := h₁.trans (h₁.closed.deleteViolations hmin h₂)
    exact h₂.trans (h₂.closed.unlinkMin hp hmin hr)
  · rw [if_neg hboth] at hr
    have hcopy : Ref U (if n.left ≠ 0 then n.left else n.right) := by
      split_ifs
      · exact hw.left
      · exact hw.right
    generalize (if n.left ≠ 0 then n.left else n.right) = toCopy at hr hcopy
    obtain ⟨c, hc, hr⟩ := bind_eq_ok.mp hr
    obtain ⟨s₂, h₂, hr⟩ := bind_eq_ok.mp hr
    replace h₂ := h₁.trans (h₁.closed.copy hp (h₁.closed.load hcopy hc) h₂)
    obtain ⟨s₃, h₃, hr⟩ := bind_eq_ok.mp hr
    replace h₃ := h₂.trans (h₂.closed.deleteViolations hcopy h₃)
    obtain ⟨c₃, hc₃, hr⟩ := bind_eq_ok.mp hr
    have hw₃ := h₃.closed.load hcopy hc₃
    obtain ⟨s₄, h₄, hr⟩ := bind_eq_ok.mp hr
    replace h₄ : Stays U s₃ s₄ := by
      refine h₃.closed.modify hp ?_ h₄
      intro m hm
      exact ⟨hw₃.left, hw₃.right, hm.parent, hm.taken⟩
    replace h₄ := h₃.trans h₄
    exact h₄.trans (h₄.closed.settle hp hcopy hr)

end Closed

end WordOS.Utils
