import WordOS.Utils.RbDelete

/-! The operations on a tree stay among the nodes in use: they follow and write no other links, and write no other nodes. -/

namespace WordOS.Utils

open Machine Lib.Zipper Lib.ColoredTree

/-- NULL or a node of `U`. -/
def Ref (U : Ptr → Prop) (p : Ptr) : Prop := p = 0 ∨ U p

structure RbNode.Within (U : Ptr → Prop) (n : RbNode) : Prop where
  left : Ref U n.left
  right : Ref U n.right
  parent : Ref U n.parent
  taken : n.Taken

/-- The nodes of `U` are taken and have links to each other only. -/
structure Closed (U : Ptr → Prop) (s : RbState) : Prop where
  root : Ref U s.root
  node : ∀ p, U p → (s.nodes p).Within U

structure Stays (U : Ptr → Prop) (s s' : RbState) : Prop where
  closed : Closed U s'
  frame : ∀ p, ¬ U p → s'.nodes p = s.nodes p

variable {U : Ptr → Prop} {s s' s'' : RbState} {n m : RbNode} {f : RbNode → RbNode} {p q parent node y : Ptr} {d : Side} {k : Color}
  {fuel size : ℕ}

namespace RbNode.Within

lemma child (h : n.Within U) (d : Side) : Ref U (n.child d) := by
  cases d
  · exact h.left
  · exact h.right

lemma setChild (h : n.Within U) (hp : Ref U p) : (n.setChild d p).Within U := by
  cases d
  · exact ⟨hp, h.right, h.parent, h.taken⟩
  · exact ⟨h.left, hp, h.parent, h.taken⟩

lemma setParent (h : n.Within U) (hp : Ref U p) : (n.setParent p).Within U := ⟨h.left, h.right, hp, h.taken⟩

lemma setColor (h : n.Within U) : (n.setColor k).Within U := ⟨h.left, h.right, h.parent, h.taken⟩

lemma copy (h : n.Within U) (hm : m.Within U) : (m.copy n).Within U := ⟨h.left, h.right, h.parent, hm.taken⟩

end RbNode.Within

lemma Closed.stays (h : Closed U s) : Stays U s s := ⟨h, fun _ _ => rfl⟩

lemma Stays.trans (h : Stays U s s') (h' : Stays U s' s'') : Stays U s s'' :=
  ⟨h'.closed, fun p hp => (h'.frame p hp).trans (h.frame p hp)⟩

namespace Closed

lemma load (h : Closed U s) (hp : Ref U p) (hl : s.load p = .ok n) : n.Within U := by
  rw [RbState.load] at hl
  split_ifs at hl with h0
  obtain rfl := Except.ok.inj hl
  exact h.node p (hp.resolve_left h0)

lemma setRoot (h : Closed U s) (hp : Ref U p) : Stays U s { s with root := p } := ⟨⟨hp, h.node⟩, fun _ _ => rfl⟩

lemma modify (h : Closed U s) (hp : Ref U p) (hf : ∀ n, n.Within U → (f n).Within U) (hm : s.modify p f = .ok s') :
    Stays U s s' := by
  rw [RbState.modify] at hm
  split_ifs at hm with h0
  obtain rfl := Except.ok.inj hm
  have hU : U p := hp.resolve_left h0
  refine ⟨⟨h.root, fun q hq => ?_⟩, fun q hq => ?_⟩
  · by_cases hqp : q = p
    · subst hqp
      rw [put_nodes_self]
      exact hf _ (h.node q hq)
    · rw [show (s.put p f).nodes q = s.nodes q from Function.update_of_ne hqp ..]
      exact h.node q hq
  · exact Function.update_of_ne (by rintro rfl; exact hq hU) ..

lemma setChild (h : Closed U s) (hp : Ref U p) (hq : Ref U q) (hm : s.modify p (·.setChild d q) = .ok s') : Stays U s s' :=
  h.modify hp (fun _ hn => hn.setChild hq) hm

lemma setParent (h : Closed U s) (hp : Ref U p) (hq : Ref U q) (hm : s.modify p (·.setParent q) = .ok s') : Stays U s s' :=
  h.modify hp (fun _ hn => hn.setParent hq) hm

lemma setColor (h : Closed U s) (hp : Ref U p) (hm : s.modify p (·.setColor k) = .ok s') : Stays U s s' :=
  h.modify hp (fun _ hn => hn.setColor) hm

lemma setParentOf (h : Closed U s) (hp : Ref U p) (hq : Ref U parent) (hr : setParentOf s p parent = .ok s') : Stays U s s' := by
  rw [Utils.setParentOf] at hr
  split_ifs at hr
  · obtain rfl := Except.ok.inj hr
    exact h.stays
  · exact h.setParent hp hq hr

lemma replaceChild (h : Closed U s) (hp : Ref U parent) (hy : Ref U y) (hr : replaceChild s parent node y = .ok s') : Stays U s s' := by
  rw [Utils.replaceChild] at hr
  split_ifs at hr
  · obtain rfl := Except.ok.inj hr
    exact h.setRoot hy
  · obtain ⟨n, -, hr⟩ := bind_eq_ok.mp hr
    exact h.setChild hp hy hr

lemma rotation (h : Closed U s) (hp : Ref U node) (hr : rotation d s node = .ok s') : Stays U s s' := by
  obtain ⟨n, hn, hr⟩ := bind_eq_ok.mp hr
  have hy : Ref U (n.child d) := (h.load hp hn).child d
  obtain ⟨m, hm, hr⟩ := bind_eq_ok.mp hr
  have hinner : Ref U (m.child d.flip) := (h.load hy hm).child d.flip
  obtain ⟨s₁, h₁, hr⟩ := bind_eq_ok.mp hr
  replace h₁ := h.setChild hp hinner h₁
  obtain ⟨s₂, h₂, hr⟩ := bind_eq_ok.mp hr
  replace h₂ := h₁.trans (h₁.closed.setParentOf hinner hp h₂)
  obtain ⟨n₂, hn₂, hr⟩ := bind_eq_ok.mp hr
  have hparent : Ref U n₂.parent := (h₂.closed.load hp hn₂).parent
  obtain ⟨s₃, h₃, hr⟩ := bind_eq_ok.mp hr
  replace h₃ := h₂.trans (h₂.closed.setParent hy hparent h₃)
  obtain ⟨s₄, h₄, hr⟩ := bind_eq_ok.mp hr
  replace h₄ := h₃.trans (h₃.closed.replaceChild hparent hy h₄)
  obtain ⟨s₅, h₅, hr⟩ := bind_eq_ok.mp hr
  replace h₅ := h₄.trans (h₄.closed.setChild hy hp h₅)
  exact h₅.trans (h₅.closed.setParent hp hy hr)

lemma rotate (h : Closed U s) (hp : Ref U node) (hr : rotate d s node = .ok s') : Stays U s s' := by
  cases d
  · exact h.rotation hp hr
  · exact h.rotation hp hr

lemma straighten (h : Closed U s) (hp : Ref U node) (hr : straighten s d node = .ok (q, s')) : Ref U q ∧ Stays U s s' := by
  obtain ⟨n, hn, hr⟩ := bind_eq_ok.mp hr
  have hparent : Ref U n.parent := (h.load hp hn).parent
  obtain ⟨m, -, hr⟩ := bind_eq_ok.mp hr
  split_ifs at hr
  · obtain ⟨s₁, h₁, hr⟩ := bind_eq_ok.mp hr
    replace h₁ := h.rotate hparent h₁
    obtain ⟨n₁, hn₁, hr⟩ := bind_eq_ok.mp hr
    obtain ⟨rfl, rfl⟩ := Prod.mk.inj (Except.ok.inj hr)
    exact ⟨(h₁.closed.load hp hn₁).child d, h₁⟩
  · obtain ⟨rfl, rfl⟩ := Prod.mk.inj (Except.ok.inj hr)
    exact ⟨hp, h.stays⟩

lemma liftParent (h : Closed U s) (hp : Ref U node) (hr : liftParent s node = .ok s') : Stays U s s' := by
  obtain ⟨n, hn, hr⟩ := bind_eq_ok.mp hr
  have hparent : Ref U n.parent := (h.load hp hn).parent
  obtain ⟨side, -, hr⟩ := bind_eq_ok.mp hr
  obtain ⟨s₁, h₁, hr⟩ := bind_eq_ok.mp hr
  replace h₁ := h.setColor hparent h₁
  obtain ⟨m, hm, hr⟩ := bind_eq_ok.mp hr
  have hgrand : Ref U m.parent := (h₁.closed.load hparent hm).parent
  obtain ⟨s₂, h₂, hr⟩ := bind_eq_ok.mp hr
  replace h₂ := h₁.trans (h₁.closed.setColor hgrand h₂)
  exact h₂.trans (h₂.closed.rotate hgrand hr)

lemma insertViolations (h : Closed U s) (hp : Ref U node) (hr : insertViolations fuel s node = .ok s') : Stays U s s' := by
  induction fuel generalizing s s' node with
  | zero => cases hr
  | succ fuel ih =>
    rw [Utils.insertViolations] at hr
    split_ifs at hr
    · obtain rfl := Except.ok.inj hr
      exact h.stays
    obtain ⟨n, hn, hr⟩ := bind_eq_ok.mp hr
    have hparent : Ref U n.parent := (h.load hp hn).parent
    dsimp only at hr
    split_ifs at hr
    · exact h.setColor hp hr
    · obtain rfl := Except.ok.inj hr
      exact h.stays
    obtain ⟨m, hm, hr⟩ := bind_eq_ok.mp hr
    have hgrand : Ref U m.parent := (h.load hparent hm).parent
    obtain ⟨side, -, hr⟩ := bind_eq_ok.mp hr
    obtain ⟨g, hg, hr⟩ := bind_eq_ok.mp hr
    have huncle : Ref U (g.child side.flip) := (h.load hgrand hg).child _
    obtain ⟨c, -, hr⟩ := bind_eq_ok.mp hr
    split_ifs at hr
    · obtain ⟨s₁, h₁, hr⟩ := bind_eq_ok.mp hr
      replace h₁ := h.setColor hparent h₁
      obtain ⟨s₂, h₂, hr⟩ := bind_eq_ok.mp hr
      replace h₂ := h₁.trans (h₁.closed.setColor huncle h₂)
      obtain ⟨s₃, h₃, hr⟩ := bind_eq_ok.mp hr
      replace h₃ := h₂.trans (h₂.closed.setColor hgrand h₃)
      obtain ⟨s₄, h₄, hr⟩ := bind_eq_ok.mp hr
      replace h₄ := h₃.trans (ih h₃.closed hgrand h₄)
      exact h₄.trans (h₄.closed.setColor h₄.closed.root hr)
    · obtain ⟨⟨q, s₁⟩, h₁, hr⟩ := bind_eq_ok.mp hr
      obtain ⟨hq, h₁⟩ := h.straighten hp h₁
      obtain ⟨s₂, h₂, hr⟩ := bind_eq_ok.mp hr
      replace h₂ := h₁.trans (h₁.closed.liftParent hq h₂)
      exact h₂.trans (h₂.closed.setColor h₂.closed.root hr)

lemma insertDescent {cur prev : Ptr} (h : Closed U s) (hc : Ref U cur) (hp : Ref U prev) {d' : Side}
    (hr : insertDescent fuel s size cur prev d = .ok (q, d')) : Ref U q := by
  induction fuel generalizing cur prev d with
  | zero => cases hr
  | succ fuel ih =>
    rw [Utils.insertDescent] at hr
    split_ifs at hr
    · obtain ⟨rfl, rfl⟩ := Prod.mk.inj (Except.ok.inj hr)
      exact hp
    obtain ⟨n, hn, hr⟩ := bind_eq_ok.mp hr
    have hw := h.load hc hn
    split_ifs at hr
    · exact ih hw.right hc hr
    · exact ih hw.left hc hr

lemma insertNode (h : Closed U s) (hp : Ref U node) (hr : insertNode fuel s node = .ok s') : Stays U s s' := by
  rw [Utils.insertNode] at hr
  split_ifs at hr
  · obtain rfl := Except.ok.inj hr
    exact h.stays
  obtain ⟨s₁, h₁, hr⟩ := bind_eq_ok.mp hr
  replace h₁ := h.setColor h.root h₁
  obtain ⟨n, -, hr⟩ := bind_eq_ok.mp hr
  obtain ⟨⟨prev, dir⟩, hd, hr⟩ := bind_eq_ok.mp hr
  have hprev : Ref U prev := h₁.closed.insertDescent h₁.closed.root (.inl rfl) hd
  obtain ⟨s₂, h₂, hr⟩ := bind_eq_ok.mp hr
  replace h₂ := h₁.trans (h₁.closed.setChild hprev hp h₂)
  obtain ⟨s₃, h₃, hr⟩ := bind_eq_ok.mp hr
  replace h₃ := h₂.trans (h₂.closed.setParent hp hprev h₃)
  obtain ⟨s₄, h₄, hr⟩ := bind_eq_ok.mp hr
  replace h₄ := h₃.trans (h₃.closed.setColor hp h₄)
  obtain ⟨n, -, hr⟩ := bind_eq_ok.mp hr
  obtain ⟨m, -, hr⟩ := bind_eq_ok.mp hr
  split_ifs at hr
  · exact h₄.trans (h₄.closed.insertViolations hp hr)
  · obtain rfl := Except.ok.inj hr
    exact h₄

end Closed

end WordOS.Utils
