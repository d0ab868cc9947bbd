import WordOS.Utils.RbDeletePath

/-! `delete_violations` on represented trees, whichever root it is given. -/

namespace WordOS.Utils

open Machine BinaryTree Lib.Zipper Lib.ColoredTree

lemma modify_root {s s' : RbState} {p : Ptr} {f : RbNode → RbNode} (h : s.modify p f = .ok s') : s'.root = s.root := by
  rw [RbState.modify] at h
  split_ifs at h
  rw [← Except.ok.inj h, put_root]

@[simp] lemma reroot_siblingOf (s : RbState) (r p : Ptr) : siblingOf (s.reroot r) p = siblingOf s p := rfl

@[simp] lemma reroot_colorAt (s : RbState) (r p : Ptr) : colorAt (s.reroot r) p = colorAt s p := rfl

/-- `Yields` for a run that is given another root: the root pointer is written if `lifts`. -/
def YieldsUnder (rest : Ptr → RbNode) (root : Ptr) (lifts : Prop) [Decidable lifts] (e : Exec RbState) : Option RbTree → Prop
  | none => e = .error .fault
  | some t => ∃ s', e = .ok (s'.reroot (if lifts then s'.root else root)) ∧ Represents rest s' t

lemma YieldsUnder.congr {rest : Ptr → RbNode} {root : Ptr} {lifts lifts' : Prop} [Decidable lifts] [Decidable lifts']
    {e : Exec RbState} {o : Option RbTree} (h : YieldsUnder rest root lifts e o) (hl : lifts ↔ lifts') :
    YieldsUnder rest root lifts' e o := by
  cases o with
  | none => exact h
  | some t => simpa only [YieldsUnder, hl] using h

namespace Represents

variable {rest : Ptr → RbNode} {s : RbState} {c : RbPath} {d d' : Side} {t p q near far : RbTree}
  {f : Frame (Cell Entry)} {a m n : Cell Entry} {root : Ptr}

lemma siblingOf (h : Represents rest s (plug (f :: c) t)) (ht : t ≠ nil) :
    siblingOf s (addr t) = .ok (addr f.sibling, f.side.flip) := by
  obtain ⟨_, hl, hp, _⟩ := h.load_addr ht
  have hn := h.child_ne ht
  have hf : s.load f.value.val.ptr = _ := h.load
  rw [parentAddr] at hp
  simp only [Utils.siblingOf, hl, ok_bind, hp, hf, pure_eq]
  cases hd : f.side <;> simp [record, hn, Side.flip]

lemma swing (h : Represents rest s (plug (⟨d, a, fork d m p q⟩ :: c) t)) (root : Ptr) :
    ∃ s', Utils.rotate d.flip (s.reroot root) a.val.ptr = .ok (s'.reroot (if c = [] then s'.root else root)) ∧
      Represents rest s' (plug (⟨d, a, p⟩ :: ⟨d, m, q⟩ :: c) t) := by
  have h' : Represents rest s (plug c (fork d.flip a (fork d.flip m q p) t)) := by
    simpa only [plug_cons, Frame.plug, fork_flip] using h
  obtain ⟨s', e, h''⟩ := h'.rotate_reroot root
  exact ⟨s', e, by simpa only [plug_cons, Frame.plug, fork_flip] using h''⟩

lemma alignNephew (h : Represents rest s (plug (⟨d, a, fork d m near far⟩ :: c) t)) (hn : near ≠ nil) (root : Ptr) :
    ∃ s', alignNephew (s.reroot root) d.flip m.val.ptr = .ok (s'.reroot root) ∧
      Represents rest s' (plug (⟨d, a, rot d (fork d (m.paint .red) (paint .black near) far)⟩ :: c) t) := by
  obtain ⟨s₁, e₁, h₁⟩ := h.across.setColor .red
  have hl : s₁.load m.val.ptr = _ := h₁.load
  have h₁' : Represents rest s₁ (plug (⟨d, m.paint .red, far⟩ :: ⟨d.flip, a, t⟩ :: c) near) := h₁
  obtain ⟨s₂, e₂, h₂⟩ := h₁'.setColorAt hn .black
  obtain ⟨b, x, y, hb⟩ := exists_fork (paint_ne_nil (k := .black) hn) d
  rw [hb] at h₂
  have h₂' : Represents rest s₂ (plug (⟨d.flip, a, t⟩ :: c) (fork d (m.paint .red) (fork d b x y) far)) := h₂
  obtain ⟨s₃, e₃, h₃⟩ := h₂'.rotate_reroot root
  rw [if_neg (List.cons_ne_nil _ _), Cell.paint_val] at e₃
  refine ⟨s₃, ?_, ?_⟩
  · simp only [Utils.alignNephew, reroot_modify e₁, ok_bind, reroot_load, hl, Side.flip_flip, record_child, reroot_modify e₂, e₃]
  · simpa only [hb, rot_fork, Side.flip_flip] using h₃.across

lemma borrow (h : Represents rest s (plug (⟨d, a, fork d m p q⟩ :: c) (fork d' n near far))) (hq : q ≠ nil) (root : Ptr) :
    ∃ s', borrow (s.reroot root) d.flip n.val.ptr m.val.ptr = .ok (s'.reroot (if c = [] then s'.root else root)) ∧
      Represents rest s' (plug (⟨d, a.paint m.color, p⟩ :: ⟨d, m.paint a.color, paint .black q⟩ :: c)
        (fork d' (n.paint .black) near far)) := by
  have hn : s.load n.val.ptr = _ := h.load
  have ha : s.load a.val.ptr = _ := Represents.load (c := c) (d := d) h
  have hm : s.load m.val.ptr = _ := h.across.load
  obtain ⟨s₁, e₁, h₁⟩ := Represents.setColor (c := c) (d := d) (a := a) h m.color
  have h₁' : Represents rest s₁ (plug (⟨d, a.paint m.color, fork d m p q⟩ :: c) (fork d' n near far)) := h₁
  obtain ⟨s₂, e₂, h₂⟩ := h₁'.across.setColor a.color
  have h₂' : Represents rest s₂ (plug (⟨d, a.paint m.color, fork d (m.paint a.color) p q⟩ :: c)
      (fork d' n near far)) := by
    simpa only [Side.flip_flip] using h₂.across
  obtain ⟨s₃, e₃, h₃⟩ := h₂'.swing root
  obtain ⟨s₄, e₄, h₄⟩ := h₃.setColor (a := n) .black
  have hn₄ : s₄.load n.val.ptr = _ := h₄.load
  have ha₄ : s₄.load a.val.ptr = _ := Represents.load (c := ⟨d, m.paint a.color, q⟩ :: c) (d := d)
    (a := a.paint m.color) h₄
  have h₄' : Represents rest s₄ (plug (⟨d, m.paint a.color, q⟩ :: c)
      (fork d (a.paint m.color) (fork d' (n.paint .black) near far) p)) := h₄
  have hm₄ : s₄.load m.val.ptr = _ := Represents.load (c := c) (d := d) (a := m.paint a.color) h₄
  obtain ⟨s₅, e₅, h₅⟩ := h₄'.across.setColorAt hq .black
  rw [Cell.paint_val] at e₃
  refine ⟨s₅, ?_, by simpa only [plug_cons, Frame.plug, Side.flip_flip] using h₅.across⟩
  change s₄.load n.val.ptr = _ at hn₄
  rw [modify_root e₅, modify_root e₄]
  simp only [Utils.borrow, reroot_load, hn, ok_bind, record_parent, parentAddr, ha, record_color, hm, reroot_modify e₁,
    reroot_modify e₂, e₃, reroot_modify e₄, hn₄, ha₄, Cell.paint_val, hm₄, record_child_flip, reroot_modify e₅]

lemma passUp {e : Side} {b : Cell Entry} {x y : RbTree}
    (h : Represents rest s (plug (⟨d, b, fork d m near far⟩ :: c) (fork e (a.paint .doubleBlack) x y))) :
    ∃ s₁ s₂, s.modify a.val.ptr (·.setColor .black) = .ok s₁ ∧ s₁.modify m.val.ptr (·.setColor .red) = .ok s₂ ∧
      Represents rest s₂ (plug c (fork d b (fork e (a.paint .black) x y) (fork d (m.paint .red) near far))) := by
  obtain ⟨s₁, e₁, h₁⟩ := h.setColor .black
  rw [Cell.paint_paint] at h₁
  obtain ⟨s₂, e₂, h₂⟩ := h₁.across.setColor .red
  rw [Cell.paint_val] at e₁
  exact ⟨s₁, s₂, e₁, e₂, by simpa only [plug_cons, Frame.plug, Side.flip_flip] using h₂.across⟩

lemma turnSibling {b : Cell Entry} (h : Represents rest s (plug (⟨d, b, fork d m near far⟩ :: c) t)) (root : Ptr) :
    ∃ s₁ s₂ s₃, s.modify m.val.ptr (·.setColor b.color) = .ok s₁ ∧ s₁.modify b.val.ptr (·.setColor m.color) = .ok s₂ ∧
      Utils.rotate d.flip (s₂.reroot root) b.val.ptr = .ok (s₃.reroot (if c = [] then s₃.root else root)) ∧
      Represents rest s₃ (plug (⟨d, b.paint m.color, near⟩ :: ⟨d, m.paint b.color, far⟩ :: c) t) := by
  obtain ⟨s₁, e₁, h₁⟩ := h.across.setColor b.color
  have h₁' : Represents rest s₁ (plug c (fork d b t (fork d (m.paint b.color) near far))) := by
    simpa only [plug_cons, Frame.plug, Side.flip_flip] using h₁.across
  obtain ⟨s₂, e₂, h₂⟩ := h₁'.setColor m.color
  obtain ⟨s₃, e₃, h₃⟩ := Represents.swing (a := b.paint m.color) (c := c) h₂ root
  rw [Cell.paint_val] at e₃
  exact ⟨s₁, s₂, s₃, e₁, e₂, e₃, h₃⟩

lemma alignIf {b : Cell Entry} (h : Represents rest s (plug (⟨d, b, fork d m near far⟩ :: c) t)) (hn : color near = .red)
    (root : Ptr) :
    ∃ n p q s', (∀ k : RbState → Exec RbState,
        (if color far = .black then Utils.alignNephew (s.reroot root) d.flip m.val.ptr >>= k else k (s.reroot root))
          = k (s'.reroot root)) ∧
      Represents rest s' (plug (⟨d, b, fork d n p q⟩ :: c) t) ∧ alignSibling d (fork d m near far) = fork d n p q ∧
      q ≠ nil := by
  have hnn : near ≠ nil := by
    rintro rfl
    simp at hn
  rw [alignSibling_fork]
  by_cases hfb : color far = .black
  · obtain ⟨s', e, h'⟩ := h.alignNephew hnn root
    obtain ⟨n, p, q, hpn⟩ := exists_fork (paint_ne_nil (k := .black) hnn) d
    rw [hpn, rot_fork] at h'
    exact ⟨n, p, _, s', fun k => by rw [if_pos hfb, e, ok_bind], h', by rw [if_pos hfb, hpn, rot_fork], fork_ne_nil⟩
  · refine ⟨m, near, far, s, fun k => if_neg hfb, h, if_neg hfb, ?_⟩
    rintro rfl
    exact hfb rfl

/-- What follows does not lift the root, so that the root pointer stays as the rotation before has left it. -/
lemma yields_of_not_lifts {lifted : Prop} [Decidable lifted] {e : Side} {x y : RbTree} {k : Color} {run : Exec RbState}
    (h : Represents rest s (plug c (fork e (a.paint k) x y))) (hno : ¬ LiftsRoot c)
    (hr : YieldsUnder rest (if lifted then s.root else root) (k ≠ .red ∧ LiftsRoot c) run
      ((deleteFix c k).map fun q => plug q.2 (fork e (a.paint q.1) x y))) :
    YieldsUnder rest root lifted run ((deleteFix c k).map fun q => plug q.2 (fork e (a.paint q.1) x y)) := by
  cases hq : deleteFix c k with
  | none =>
    rw [hq] at hr
    exact hr
  | some q =>
    rw [hq] at hr
    obtain ⟨s', e', h'⟩ := hr
    have hlifts : ¬ (k ≠ .red ∧ LiftsRoot c) := fun hl => hno hl.2
    have hroot : s'.root = s.root := by
      rw [h'.root, h.root]
      exact (deleteFix_rebalances hq).addr_plug (fun _ => hno) (by simp)
    rw [if_neg hlifts, ← hroot] at e'
    exact ⟨s', e', h'⟩

/-- The root pointer is written exactly when the root of the tree is lifted. -/
lemma deleteViolations_reroot {fuel : ℕ} {e : Side} {x y : RbTree} (h : Represents rest s (plug c (fork e a x y)))
    (hf : climb c < fuel ∨ deleteViolations fuel (s.reroot root) a.val.ptr ≠ .error .fuel) :
    YieldsUnder rest root (a.color ≠ .red ∧ LiftsRoot c) (Utils.deleteViolations fuel (s.reroot root) a.val.ptr)
      ((deleteFix c a.color).map fun q => plug q.2 (fork e (a.paint q.1) x y)) := by
  induction fuel generalizing s c e a x y root with
  | zero => simp [Utils.deleteViolations] at hf
  | succ fuel ih =>
    have hn : s.load a.val.ptr = _ := h.load
    rcases c with _ | ⟨⟨d, b, t⟩, c⟩
    · obtain ⟨s', e, h'⟩ := h.setColor .black
      rw [deleteFix]
      refine ⟨s', ?_, h'⟩
      simp only [Utils.deleteViolations, reroot_load, hn, ok_bind, record_parent, parentAddr, if_true, reroot_modify e, LiftsRoot,
        and_false, if_false]
    have hP : b.val.ptr ≠ 0 := Represents.ptr_ne_zero (c := c) (d := d) (a := b) h
    have hsib : Utils.siblingOf s a.val.ptr = .ok (addr t, d.flip) := by
      simpa using h.siblingOf fork_ne_nil
    simp only [Utils.deleteViolations, reroot_load, hn, ok_bind, record_parent, parentAddr, if_neg hP, record_color,
      reroot_siblingOf, hsib] at hf ⊢
    by_cases hr : a.color = .red
    · rw [if_pos hr, deleteFix, if_pos hr]
      exact ⟨s, by rw [if_neg (fun h => h.1 hr)]; rfl, by simpa using h⟩
    rw [if_neg hr] at hf ⊢
    obtain ⟨s₁, e₁, h₁⟩ := h.setColor .doubleBlack
    rw [reroot_modify e₁, ok_bind] at hf ⊢
    by_cases ht : t = nil
    · subst ht
      rw [deleteFix, if_neg hr]
      rfl
    obtain ⟨m, near, far, rfl⟩ := exists_fork ht d
    have hm : s₁.load m.val.ptr = _ := h₁.across.load
    have hnear : Utils.colorAt s₁ (addr near) = .ok (color near) :=
      Represents.colorAt (c := ⟨d, m, far⟩ :: ⟨d.flip, b, _⟩ :: c) h₁.across
    have hfar : Utils.colorAt s₁ (addr far) = .ok (color far) :=
      Represents.colorAt (c := ⟨d.flip, m, near⟩ :: ⟨d.flip, b, _⟩ :: c)
        (Represents.across (f := ⟨d, m, far⟩) (c := ⟨d.flip, b, _⟩ :: c) h₁.across)
    simp only [addr_fork, reroot_load, hm, ok_bind, Side.flip_flip, record_child, record_child_flip, reroot_colorAt, hnear, hfar,
      record_color] at hf ⊢
    rw [deleteFix_fork d b m near far c hr]
    have hlift := liftsRoot_fork d b m near far c
    by_cases h3 : m.color = .black ∧ color near = .black ∧ color far = .black
    · rw [if_pos h3] at hf hlift ⊢
      rw [if_pos h3]
      obtain ⟨s₂, s₃, e₂, e₃, h₃'⟩ := h₁.passUp
      have hb : s₃.load b.val.ptr = _ := h₃'.load
      simp only [reroot_modify e₂, reroot_modify e₃, ok_bind, reroot_load, hb, record_color] at hf ⊢
      by_cases hbb : b.color = .black
      · obtain ⟨s₄, e₄, h₄⟩ := h₃'.setColor .doubleBlack
        rw [if_pos hbb, reroot_modify e₄, ok_bind] at hf ⊢
        have hrec := ih h₄ (hf.imp_left (by simp only [climb, List.map_cons, List.sum_cons]; omega))
        rw [if_pos hbb, Option.map_map]
        refine hrec.congr ?_
        rw [hlift]
        simp [hr, hbb]
      · rw [if_neg hbb, if_neg hbb]
        obtain ⟨s₄, e₄, h₄⟩ := h₃'.setColor .black
        exact ⟨s₄, by rw [reroot_modify e₄, if_neg (fun h => hbb (hlift.mp h.2).1)], h₄⟩
    rw [if_neg h3] at hf hlift ⊢
    rw [if_neg h3]
    by_cases hmr : m.color = .red
    · rw [if_pos hmr] at hf ⊢
      rw [if_pos hmr, lift_fork]
      have hb : (s₁.nodes b.val.ptr).color = b.color := by
        rw [Represents.nodes_eq (c := c) (d := d) (a := b) h₁, record_color]
      obtain ⟨s₂, s₃, s₄, e₂, e₃, e₄, h₄⟩ := h₁.turnSibling root
      simp only [reroot_nodes, hb, reroot_modify e₂, reroot_modify e₃, e₄, ok_bind] at hf ⊢
      have hc := climb_lift d b c (t := fork d m near far) fork_ne_nil
      rw [lift_fork] at hc
      have hrec := ih h₄ (hf.imp_left fun h => hc.trans_le (Nat.lt_succ_iff.mp h))
      have hno : ¬ LiftsRoot (lift d b c (fork d m near far)) := not_liftsRoot_lift hmr
      rw [lift_fork] at hno
      refine (h₄.yields_of_not_lifts hno hrec).congr ?_
      rw [hlift]
      simp [hr, hmr]
    rw [if_neg hmr] at hf ⊢
    rw [if_neg hmr]
    by_cases hmb : m.color = .black
    · rw [if_pos hmb] at hf ⊢
      by_cases hnr : color near = .red
      · simp only [hnr, and_true] at hf ⊢
        obtain ⟨n, p, q, s₂, e₂, h₂, hal, hq⟩ := h₁.alignIf hnr root
        have hsib₂ : Utils.siblingOf s₂ a.val.ptr = .ok (n.val.ptr, d.flip) := by
          simpa using h₂.siblingOf fork_ne_nil
        obtain ⟨s₃, e₃, h₃⟩ := h₂.borrow hq root
        simp only [if_true, hmb]
        refine ⟨s₃, ?_, by simpa [hal, lift_fork, paintFar] using h₃⟩
        rw [e₂ fun s => _]
        simp only [ok_bind, reroot_siblingOf, hsib₂]
        refine e₃.trans (congrArg (fun r => Except.ok (s₃.reroot r)) (if_congr ?_ rfl rfl))
        rw [hlift]
        simp [hr, hmb, hnr]
      · have hno : ¬ (m.color = .black ∧ color near = .red) := fun h => hnr h.2
        have hskip : ¬ (color far = .black ∧ color near = .red) := fun h => hnr h.2
        have hsib₁ : Utils.siblingOf s₁ a.val.ptr = .ok (m.val.ptr, d.flip) := by
          simpa using h₁.siblingOf fork_ne_nil
        rw [if_neg hno, if_neg hskip, reroot_siblingOf, hsib₁, ok_bind, if_neg hnr]
        exact ⟨s₁, by rw [if_neg (fun h => ((hlift.mp h.2).1.resolve_left hmr).2 |> hnr)]; rfl, h₁⟩
    · have hno : ¬ (m.color = .black ∧ color near = .red) := fun h => hmb h.1
      rw [if_neg hmb, if_neg hno]
      exact ⟨s₁, by rw [if_neg (fun h => hmb ((hlift.mp h.2).1.resolve_left hmr).1)]; rfl, h₁⟩

lemma deleteViolations {fuel : ℕ} {e : Side} {x y : RbTree} (h : Represents rest s (plug c (fork e a x y)))
    (hf : climb c < fuel ∨ deleteViolations fuel s a.val.ptr ≠ .error .fuel) :
    Yields rest (Utils.deleteViolations fuel s a.val.ptr)
      ((deleteFix c a.color).map fun q => plug q.2 (fork e (a.paint q.1) x y)) := by
  have hv := h.deleteViolations_reroot (show _ ∨ Utils.deleteViolations fuel (s.reroot s.root) _ ≠ _ by rwa [reroot_self])
  rw [reroot_self] at hv
  cases hq : deleteFix c a.color with
  | none =>
    rw [hq] at hv
    exact hv
  | some q =>
    rw [hq] at hv
    obtain ⟨s', e', h'⟩ := hv
    refine ⟨s', ?_, h'⟩
    split_ifs at e' with hl
    · exact e'
    · have hroot : s'.root = s.root := by
        rw [h'.root, h.root]
        exact (deleteFix_rebalances hq).addr_plug (fun hk hc => hl ⟨hk, hc⟩) (by simp)
      rwa [← hroot, reroot_self] at e'

end Represents

end WordOS.Utils
