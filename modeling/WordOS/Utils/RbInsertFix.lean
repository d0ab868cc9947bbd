import WordOS.Utils.RbAccess

/-! What `insert_violations` makes of a represented tree, as a function on paths and trees. -/

namespace WordOS.Utils

open Machine BinaryTree Lib.Zipper Lib.ColoredTree

/-- The subtree of the parent once the node is an outer grandchild. -/
def outer (f g : Frame (Cell Entry)) (t : RbTree) : RbTree :=
  if f.side = g.side then f.plug t else rot f.side (f.plug t)

/-- The tree `insert_violations` leaves when called on the root of `t`, or nothing when it
reads the grandparent of a child of the root. -/
def insertFix : RbPath → RbTree → Option RbTree
  | [], t => some (paint .black t)
  | [f], t => if f.value.color = .black then some (f.plug t) else none
  | f :: g :: c, t =>
    if f.value.color = .black then some (plug (f :: g :: c) t)
    else if color g.sibling = .red then
      (insertFix c (fork g.side (g.value.paint .red) (fork f.side (f.value.paint .black) t f.sibling)
        (paint .black g.sibling))).map (paint .black)
    else
      some (paint .black (plug c
        (rot g.side (fork g.side (g.value.paint .red) (paint .black (outer f g t)) g.sibling))))

lemma fork_ne_nil {d : Side} {a : Cell Entry} {x y : RbTree} : fork d a x y ≠ nil := by
  cases d <;> simp [fork]

lemma paint_ne_nil {k : Color} {t : RbTree} (h : t ≠ nil) : paint k t ≠ nil := by
  cases t with
  | nil => exact h
  | node a l r => simp

lemma plug_ne_nil {c : RbPath} {t : RbTree} (h : t ≠ nil) : plug c t ≠ nil :=
  fun hn => h (plug_eq_nil hn).2

lemma vals_outer (f g : Frame (Cell Entry)) (t : RbTree) : vals (outer f g t) = vals (f.plug t) := by
  rw [outer]
  split <;> simp

lemma vals_ne_nil {t : RbTree} : vals t ≠ [] ↔ t ≠ nil := by
  cases t <;> simp

lemma rot_ne_nil {d : Side} {t : RbTree} : rot d t ≠ nil ↔ t ≠ nil := by
  rw [← vals_ne_nil, vals_rot, vals_ne_nil]

lemma vals_fork_congr {d : Side} {a b : Cell Entry} {x x' y y' : RbTree} (ha : a.val = b.val)
    (hx : vals x = vals x') (hy : vals y = vals y') : vals (fork d a x y) = vals (fork d b x' y') := by
  cases d <;> simp [fork, ha, hx, hy]

lemma insertFix_vals {c : RbPath} {t u : RbTree} (h : insertFix c t = some u) :
    vals u = vals (plug c t) := by
  induction c, t using insertFix.induct generalizing u with
  | case1 t =>
    obtain rfl := Option.some.inj h
    simp
  | case2 f t hb =>
    rw [insertFix, if_pos hb] at h
    obtain rfl := Option.some.inj h
    rfl
  | case3 f t hb => simp [insertFix, hb] at h
  | case4 f g c t hb =>
    rw [insertFix, if_pos hb] at h
    obtain rfl := Option.some.inj h
    rfl
  | case5 f g c t hb hu ih =>
    rw [insertFix, if_neg hb, if_pos hu, Option.map_eq_some_iff] at h
    obtain ⟨v, hv, rfl⟩ := h
    rw [vals_paint, ih hv]
    exact vals_plug_congr c (vals_fork_congr rfl (vals_fork_congr rfl rfl rfl) (vals_paint ..))
  | case6 f g c t hb hu =>
    rw [insertFix, if_neg hb, if_neg hu] at h
    obtain rfl := Option.some.inj h
    rw [vals_paint]
    refine vals_plug_congr c ?_
    rw [vals_rot]
    exact vals_fork_congr rfl ((vals_paint ..).trans (vals_outer f g t)) rfl

/-- The execution comes back with the given tree, or faults where there is none. -/
def Yields (rest : Ptr → RbNode) (e : Exec RbState) : Option RbTree → Prop
  | some u => ∃ s', e = .ok s' ∧ Represents rest s' u
  | none => e = .error .fault

lemma sideOf_null (s : RbState) (p : Ptr) : sideOf s 0 p = .error .fault := rfl

namespace Represents

variable {rest : Ptr → RbNode} {s : RbState} {c : RbPath} {t u x : RbTree} {f g : Frame (Cell Entry)}
  {b : Cell Entry}

lemma paintRoot (h : Represents rest s t) (ht : t ≠ nil) (k : Color) :
    ∃ s', s.modify s.root (·.setColor k) = .ok s' ∧ Represents rest s' (paint k t) := by
  have := h.setColorAt (c := []) ht k
  rwa [← h.root] at this

lemma load_addr (h : Represents rest s (plug c t)) (ht : t ≠ nil) :
    ∃ n, s.load (addr t) = .ok n ∧ n.parent = parentAddr c ∧ n.color = color t := by
  cases t with
  | nil => exact (ht rfl).elim
  | node a l r => exact ⟨_, h.load (d := .left) (a := a), rfl, rfl⟩

lemma child_ne (h : Represents rest s (plug (f :: c) t)) (ht : t ≠ nil) : addr f.sibling ≠ addr t := by
  intro he
  have hd := h.nodup
  simp only [pathPtrs, List.nodup_append, List.mem_append, List.mem_cons] at hd
  rcases addr_cases f.sibling with hz | hm
  · exact h.addr_ne_zero ht (he ▸ hz)
  · exact hd.2.2 _ (.inr (.inl hm)) _ (addr_mem ht) he

lemma straighten (h : Represents rest s (plug (f :: g :: c) t)) (ht : t ≠ nil) :
    ∃ b u x s', Utils.straighten s g.side (addr t) = .ok (addr u, s') ∧ u ≠ nil ∧
      outer f g t = fork g.side b u x ∧ Represents rest s' (plug (⟨g.side, b, x⟩ :: g :: c) u) := by
  obtain ⟨n, hl, hp, _⟩ := h.load_addr ht
  rw [parentAddr] at hp
  have hf := h.load
  by_cases hs : f.side = g.side
  · have hne := h.child_ne ht
    refine ⟨f.value, t, f.sibling, s, ?_, ht, by rw [outer, if_pos hs, Frame.plug, hs], ?_⟩
    · simp only [Utils.straighten, hl, ok_bind, hp, hf, ← hs, record_child_flip, if_neg hne, pure_eq]
    · simpa only [plug_cons, Frame.plug, hs] using h
  · have hd := Side.eq_flip hs
    obtain ⟨a, x, y, rfl⟩ := exists_fork ht f.side
    have ho : outer f g (fork f.side a x y) = fork g.side a (fork f.side f.value y f.sibling) x := by
      rw [outer, if_neg hs, Frame.plug, rot_fork, hd, fork_flip]
    obtain ⟨s', he, h'⟩ := h.rotate
    rw [addr_fork] at hl ⊢
    have hn := h'.load
    refine ⟨a, _, x, s', ?_, fork_ne_nil, ho, ?_⟩
    · have hg : g.side = f.side.flip := by rw [hd, Side.flip_flip]
      simp only [Utils.straighten, hl, ok_bind, hp, hf, hg, Side.flip_flip, record_child, addr_fork,
        if_true, he, hn, record_child_flip, pure_eq]
    · simpa only [plug_cons, Frame.plug, hd, fork_flip] using h'

lemma liftParent {z : RbTree} {a : Cell Entry} {d : Side}
    (h : Represents rest s (plug (⟨d, b, x⟩ :: ⟨d, a, z⟩ :: c) u)) (hu : u ≠ nil) :
    ∃ s', Utils.liftParent s (addr u) = .ok s' ∧
      Represents rest s' (plug c (rot d (fork d (a.paint .red) (fork d (b.paint .black) u x) z))) := by
  obtain ⟨n, hl, hp, _⟩ := h.load_addr hu
  obtain ⟨s₁, e₁, h₁⟩ := h.setColor .black
  have hb := h₁.load
  have h₁' : Represents rest s₁ (plug c (fork d a (fork d (b.paint .black) u x) z)) := h₁
  obtain ⟨s₂, e₂, h₂⟩ := h₁'.setColor .red
  obtain ⟨s₃, e₃, h₃⟩ := h₂.rotate
  rw [parentAddr] at hp
  refine ⟨s₃, ?_, by rwa [rot_fork]⟩
  simp only [Cell.paint_val] at hb e₃
  simp only [Utils.liftParent, hl, ok_bind, hp, h.sideOf hu, e₁, hb, record_parent, parentAddr, e₂, e₃]

end Represents

lemma Yields.paintRoot {rest : Ptr → RbNode} {e : Exec RbState} {o : Option RbTree} (h : Yields rest e o)
    (ho : ∀ u, o = some u → u ≠ nil) :
    Yields rest (do let s ← e; s.modify s.root (·.setColor .black)) (o.map (paint .black)) := by
  cases o with
  | none =>
    rw [show e = .error .fault from h]
    rfl
  | some u =>
    obtain ⟨s, rfl, hs⟩ := h
    exact hs.paintRoot (ho u rfl) .black

lemma Represents.insertViolations {rest : Ptr → RbNode} {fuel : ℕ} {s : RbState} {c : RbPath} {t : RbTree}
    (h : Represents rest s (plug c t)) (ht : t ≠ nil)
    (hf : c.length < fuel ∨ insertViolations fuel s (addr t) ≠ .error .fuel) :
    Yields rest (Utils.insertViolations fuel s (addr t)) (insertFix c t) := by
  induction fuel generalizing s c t with
  | zero => simp [Utils.insertViolations] at hf
  | succ fuel ih =>
    obtain ⟨n, hl, hp, _⟩ := h.load_addr ht
    have hz := h.addr_ne_zero ht
    rcases c with _ | ⟨f, _ | ⟨g, c⟩⟩
    · obtain ⟨s', e, h'⟩ := h.setColorAt ht .black
      refine ⟨s', ?_, h'⟩
      simp only [Utils.insertViolations, if_neg hz, hl, ok_bind, hp, parentAddr, if_true, e]
    · have hf : s.load f.value.val.ptr = _ := h.load
      have hc : (s.nodes f.value.val.ptr).color = f.value.color := by rw [h.nodes_eq, record_color]
      have hP := h.ptr_ne_zero
      simp only [Utils.insertViolations, if_neg hz, hl, ok_bind, hp, parentAddr, if_neg hP, hc, hf,
        record_parent, sideOf_null, error_bind, insertFix]
      by_cases hb : f.value.color = .black
      · rw [if_pos hb, if_pos hb]
        exact ⟨s, rfl, h⟩
      · rw [if_neg hb, if_neg hb]
        rfl
    · have hf' : s.load f.value.val.ptr = _ := h.load
      have hc : (s.nodes f.value.val.ptr).color = f.value.color := by rw [h.nodes_eq, record_color]
      have hP := h.ptr_ne_zero
      have hg : Represents rest s (plug (g :: c) (f.plug t)) := h
      have hs : Utils.sideOf s g.value.val.ptr f.value.val.ptr = .ok g.side := by
        simpa [Frame.plug] using hg.sideOf (x := f.plug t) fork_ne_nil
      have hg' : Represents rest s (plug c (fork g.side g.value (f.plug t) g.sibling)) := h
      have hl' : s.load g.value.val.ptr = _ := hg'.load
      have hu : Utils.colorAt s (addr g.sibling) = _ := hg.across.colorAt
      simp only [Utils.insertViolations, if_neg hz, hl, ok_bind, hp, parentAddr, if_neg hP, hc, hf',
        record_parent, hs, hl', record_child_flip, hu] at hf ⊢
      by_cases hb : f.value.color = .black
      · rw [insertFix, if_pos hb, if_pos hb]
        exact ⟨s, rfl, h⟩
      rw [insertFix, if_neg hb, if_neg hb]
      rw [if_neg hb] at hf
      by_cases hr : color g.sibling = .red
      · rw [if_pos hr] at hf ⊢
        rw [if_pos hr]
        have hn : g.sibling ≠ nil := by
          intro hn
          simp [hn] at hr
        obtain ⟨s₁, e₁, h₁⟩ := h.setColor .black
        have h₁' : Represents rest s₁ (plug (g :: c) (fork f.side (f.value.paint .black) t f.sibling)) := h₁
        obtain ⟨s₂, e₂, h₂⟩ := h₁'.across.setColorAt hn .black
        have h₂' : Represents rest s₂ (plug c (fork g.side.flip g.value (paint .black g.sibling)
          (fork f.side (f.value.paint .black) t f.sibling))) := h₂
        obtain ⟨s₃, e₃, h₃⟩ := h₂'.setColor .red
        rw [fork_flip] at h₃
        simp only [e₁, ok_bind, e₂, e₃] at hf ⊢
        have hrec := ih h₃ fork_ne_nil (hf.imp (by simp only [List.length_cons]; omega) (by
          rw [addr_fork]
          exact mt fun he => by rw [Cell.paint_val] at he; rw [he, error_bind]))
        rw [addr_fork, Cell.paint_val] at hrec
        refine hrec.paintRoot ?_
        intro u hu
        rw [← vals_ne_nil, insertFix_vals hu, vals_ne_nil]
        exact plug_ne_nil fork_ne_nil
      · rw [if_neg hr, if_neg hr]
        obtain ⟨b, u, x, s₁, e₁, hu, ho, h₁⟩ := h.straighten ht
        obtain ⟨s₂, e₂, h₂⟩ := h₁.liftParent hu
        obtain ⟨s₃, e₃, h₃⟩ := h₂.paintRoot (plug_ne_nil (by rw [rot_ne_nil]; exact fork_ne_nil)) .black
        refine ⟨s₃, by simp only [e₁, ok_bind, e₂, e₃], ?_⟩
        rwa [ho, paint_fork]

end WordOS.Utils
