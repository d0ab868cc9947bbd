import WordOS.Utils.RbDeleteInner

/-! Which ranges are left after `delete_node`. -/

namespace WordOS.Utils

open Machine BinaryTree Lib.Zipper Lib.ColoredTree

def Entry.range (e : Entry) : ℕ × ℕ := (e.base, e.size)

def ranges (t : RbTree) : List (ℕ × ℕ) := (vals t).map Entry.range

/-- In-order sizes increase. -/
def StrictlySorted (t : RbTree) : Prop := (vals t).Pairwise fun e e' => e.size < e'.size

instance (t : RbTree) : Decidable (StrictlySorted t) := inferInstanceAs (Decidable (List.Pairwise _ _))

def leftChild : RbTree → RbTree
  | nil => nil
  | node _ l _ => l

lemma around_append (p c : RbPath) :
    around (p ++ c) = ((around c).1 ++ (around p).1, (around p).2 ++ (around c).2) := by
  induction p with
  | nil => simp [around, before, after]
  | cons f p ih =>
    rw [List.cons_append, around_cons, around_cons, ih]
    cases f.side <;> simp

lemma around_right {p : RbPath} (h : ∀ f ∈ p, f.side = .right) : (around p).2 = [] := by
  induction p with
  | nil => rfl
  | cons f p ih =>
    rw [around_cons, h f (by simp)]
    exact ih fun g hg => h g (by simp [hg])

lemma vals_plug_around (c : RbPath) (t : RbTree) :
    vals (plug c t) = (around c).1 ++ vals t ++ (around c).2 :=
  vals_plug c t

lemma vals_takeOver {rs c p c' : RbPath} {a b : Cell Entry} {r x : RbTree} {f : Frame (Cell Entry)} {k : Color}
    (hr : ∀ g ∈ rs, g.side = .right) (hk : Keeps (rs ++ ⟨.left, a, r⟩ :: c) (p ++ f :: c'))
    (hs : f.side = .left) (hv : f.value.val = a.val)
    (hd : (ptrs (plug (rs ++ ⟨.left, a, r⟩ :: c) (node b x nil))).Nodup) :
    ∃ l₁ l₂, vals (plug (rs ++ ⟨.left, a, r⟩ :: c) (node b x nil)) = l₁ ++ vals x ++ b.val :: a.val :: l₂ ∧
      vals (plug (p ++ ⟨.left, ⟨k, b.val.copy a.val⟩, f.sibling⟩ :: c') nil) = l₁ ++ b.val.copy a.val :: l₂ := by
  have ha := hk.around
  rw [ptrs, vals_plug_around, around_append, around_cons, around_right hr] at hd
  rw [around_append, around_append, around_cons, around_cons, hs, hv, around_right hr] at ha
  simp only [Prod.mk.injEq, List.nil_append, List.cons_append] at ha hd
  obtain ⟨h₁, h₂⟩ := ha
  have hY : a.val ∉ vals r ++ (around c).2 := by
    intro hm
    have hn := (List.nodup_append.mp (List.map_append .. ▸ hd)).2.1
    exact (List.nodup_cons.mp hn).1 (List.mem_map_of_mem hm)
  have hp : (around p).2 = [] := by
    cases hp : (around p).2 with
    | nil => rfl
    | cons e l =>
      rw [hp, List.cons_append, List.cons.injEq] at h₂
      exact (hY (h₂.2 ▸ by simp)).elim
  rw [hp, List.nil_append, List.cons.injEq] at h₂
  refine ⟨(around c').1 ++ (around p).1, vals r ++ (around c).2, ?_, ?_⟩
  · rw [vals_plug_around, around_append, around_cons, around_right hr]
    simp [h₁]
  · rw [vals_plug_around, around_append, around_cons, hp]
    simp [h₂.2]

lemma Rep.unique {n : Ptr → RbNode} {p p' : Ptr} {t t' : RbTree} (h : Rep n p t) (h' : Rep n p' t')
    (hz : 0 ∉ ptrs t) (hz' : 0 ∉ ptrs t') (ha : addr t = addr t') : t = t' := by
  induction t generalizing p p' t' with
  | nil =>
    by_contra hn
    have := addr_mem (Ne.symm hn)
    rw [← ha, addr_nil] at this
    exact hz' this
  | node a l r ihl ihr =>
    cases t' with
    | nil =>
      have := addr_mem (t := node a l r) (by simp)
      rw [ha, addr_nil] at this
      exact (hz this).elim
    | node b x y =>
      obtain ⟨ha', hl, hr⟩ := h
      obtain ⟨hb', hx, hy⟩ := h'
      rw [mem_ptrs_node, not_or, not_or] at hz hz'
      rw [addr_node, addr_node] at ha
      rw [ha, hb'] at ha'
      simp only [record, RbNode.mk.injEq] at ha'
      obtain ⟨h₁, h₂, h₃, h₄, h₅, h₆, h₇, _⟩ := ha'
      rw [ihl hl hx hz.2.1 hz'.2.1 h₆.symm, ihr hr hy hz.2.2 hz'.2.2 h₇.symm]
      rcases a with ⟨ka, ea⟩
      rcases b with ⟨kb, eb⟩
      cases ea
      cases eb
      simp_all

lemma Represents.unique {rest rest' : Ptr → RbNode} {s : RbState} {t t' : RbTree} (h : Represents rest s t)
    (h' : Represents rest' s t') : t = t' :=
  h.rep.unique h'.rep h.nonnull h'.nonnull (h.root.symm.trans h'.root)

lemma Represents.exists_iff {x : Exec RbState} {s' : RbState} {t : RbTree} {P : RbTree → Prop} (h : Represents s'.nodes s' t)
    (he : x = .ok s') : (∃ s₁ t₁, x = .ok s₁ ∧ Represents s₁.nodes s₁ t₁ ∧ P t₁) ↔ P t := by
  constructor
  · rintro ⟨s₁, t₁, he₁, h₁, hr⟩
    obtain rfl := Except.ok.inj (he.symm.trans he₁)
    rwa [h.unique h₁]
  · exact fun hr => ⟨s', t, he, h, hr⟩

/-- On a balanced path every black node has a sibling, and `delete_violations` returns. -/
lemma exists_deleteFix {c : RbPath} {n : ℕ} (h : PathHeight (n + 1) c) (k : Color) : ∃ q, deleteFix c k = some q := by
  induction hc : climb c using Nat.strong_induction_on generalizing c n k with
  | _ m ih =>
    subst hc
    rcases c with _ | ⟨⟨d, b, t⟩, c⟩
    · exact ⟨_, by rw [deleteFix]⟩
    by_cases hk : k = .red
    · exact ⟨_, by rw [hk, deleteFix_red]⟩
    have ht : t ≠ nil := by
      rintro rfl
      rcases hb : b.color <;> simp [PathHeight, hb, Height] at h
    obtain ⟨s, near, far, rfl⟩ := exists_fork ht d
    rw [deleteFix_fork d b s near far c hk]
    split_ifs with h3 hb hs h4
    · simp only [PathHeight, hb] at h
      obtain ⟨q, hq⟩ := ih _ (by simp [climb]) h.2 .doubleBlack rfl
      exact ⟨_, by rw [hq]; rfl⟩
    · exact ⟨_, rfl⟩
    · refine ih _ (climb_lift d b c fork_ne_nil) (n := n) ?_ .doubleBlack rfl
      rw [lift_fork]
      rcases hb : b.color <;> simp only [PathHeight, hb, height_fork, hs, Cell.paint_color] at h ⊢
      · exact ⟨h.1.1, h.1.2, h.2⟩
      · exact ⟨h.1.1, h.1.2, h.2⟩
    · exact ⟨_, rfl⟩
    · exact ⟨_, rfl⟩

lemma height_zero {t : RbTree} {k : Color} (hn : NoRedRed k t) (hh : Height 0 t) :
    t = nil ∨ k ≠ .red ∧ ∃ b, t = node b nil nil ∧ b.color = .red := by
  induction t generalizing k with
  | nil => exact .inl rfl
  | node b l r ihl ihr =>
    rcases hb : b.color <;> simp only [Height, hb] at hh
    · obtain ⟨hk, hl, hr⟩ := hn
      rw [hb] at hl hr hk
      rcases ihl hl hh.1 with rfl | h
      · rcases ihr hr hh.2 with rfl | h
        · exact .inr ⟨fun h => hk ⟨h, rfl⟩, b, rfl, hb⟩
        · exact (h.1 rfl).elim
      · exact (h.1 rfl).elim
    · obtain ⟨m, hm, _⟩ := hh
      omega

lemma lone_child {d : Side} {a : Cell Entry} {t : RbTree} {k : Color} {n : ℕ} (hn : NoRedRed k (fork d a t nil))
    (hh : Height n (fork d a t nil)) : t = nil ∨ a.color = .black ∧ ∃ b, t = node b nil nil ∧ b.color = .red := by
  rw [noRedRed_fork] at hn
  rw [height_fork] at hh
  rcases ha : a.color <;> simp only [ha] at hh hn
  · obtain rfl : n = 0 := hh.2
    rcases height_zero hn.2.1 hh.1 with h | h
    · exact .inl h
    · exact (h.1 rfl).elim
  · obtain ⟨m, rfl, hm, rfl⟩ := hh
    exact (height_zero hn.2.1 hm).imp_right fun h => ⟨rfl, h.2⟩

lemma exists_deleteFix_of_redBlack {c : RbPath} {b : Cell Entry} {x y : RbTree} (h : RedBlack (plug c (node b x y))) :
    ∃ q, deleteFix c b.color = some q := by
  obtain ⟨_, _, n, hh, hp⟩ := (redBlack_plug ..).mp h
  rcases hb : b.color <;> simp only [Height, hb] at hh
  · cases c with
    | nil => exact ⟨_, by rw [deleteFix]⟩
    | cons f c => exact ⟨_, deleteFix_red f c⟩
  · obtain ⟨m, rfl, _⟩ := hh
    exact exists_deleteFix hp _

/-- The in-order predecessor of the node above a hole, and the repair of the path to it. -/
lemma exists_predecessor {c : RbPath} {l : RbTree} (hl : l ≠ nil) (hb : RedBlack (plug c l)) :
    ∃ b x q, rightmostNode l = node b x nil ∧ RedBlack (plug (rightPath c l) (node b x nil)) ∧
      deleteFix (rightPath c l) b.color = some q := by
  obtain ⟨b, x, hm⟩ := exists_rightmostNode hl
  have hred : RedBlack (plug (rightPath c l) (node b x nil)) := by
    rw [← hm, plug_rightPath]
    exact hb
  obtain ⟨q, hq⟩ := exists_deleteFix_of_redBlack hred
  exact ⟨b, x, q, hm, hred, hq⟩

lemma erase_range {l₁ l₂ : List Entry} {e : Entry}
    (h : (l₁ ++ e :: l₂).Pairwise fun e e' => e.size < e'.size) :
    ((l₁ ++ e :: l₂).map Entry.range).erase e.range = (l₁ ++ l₂).map Entry.range := by
  have hn : e.range ∉ l₁.map Entry.range := by
    intro hm
    obtain ⟨e', he', hr⟩ := List.mem_map.mp hm
    have := (List.pairwise_append.mp h).2.2 e' he' e (by simp)
    simp only [Entry.range, Prod.mk.injEq] at hr
    omega
  rw [List.map_append, List.map_cons, List.erase_append_right _ hn, List.erase_cons_head, List.map_append]

lemma StrictlySorted.parent_lt {c : RbPath} {f : Frame (Cell Entry)} {a : Cell Entry} {l r : RbTree}
    (h : StrictlySorted (plug (f :: c) (node a l r))) : a.val.size > f.value.val.size ↔ f.side = .right := by
  rw [StrictlySorted, vals_plug_around, around_cons] at h
  rcases f with ⟨_ | _, b, t⟩
  · have hlt : a.val.size < b.val.size := by
      refine (List.pairwise_append.mp h).2.2 _ (by simp) _ (by simp)
    simp
    omega
  · have hlt : b.val.size < a.val.size := by
      rw [List.append_assoc] at h
      refine (List.pairwise_append.mp h).2.2 _ (by simp) _ (by simp)
    simp
    omega

lemma Represents.deleteNode_lone {rest : Ptr → RbNode} {s : RbState} {c : RbPath} {a : Cell Entry} {t : RbTree}
    {d : Side} {fuel : ℕ} (h : Represents rest s (plug c (fork d a t nil))) (hb : RedBlack (plug c (fork d a t nil)))
    (ho : StrictlySorted (plug c (fork d a t nil))) (ht : t ≠ nil) (hf : 2 * (pathPtrs c).length + 1 < fuel) :
    ∃ s' t', deleteNode fuel s a.val.ptr = .ok s' ∧ Represents s'.nodes s' t' ∧
      ranges t' = (ranges (plug c (fork d a t nil))).erase a.val.range := by
  obtain ⟨hn, _, n, hh, _⟩ := (redBlack_plug ..).mp hb
  obtain ⟨_, b, rfl, hbr⟩ := (lone_child hn hh).resolve_left ht
  have hclimb : climb (⟨d, a, nil⟩ :: c) < fuel := (climb_lone_le d a c).trans_lt hf
  obtain ⟨k, _, _, s', e, h', _⟩ := (h.deleteNode_single (.inl hclimb)).2 hbr
  refine ⟨s', _, e, h', ?_⟩
  rw [StrictlySorted, vals_plug_around] at ho
  rw [ranges, ranges, vals_plug_around, vals_plug_around]
  cases d
  · have ho' : ((around c).1 ++ [b.val] ++ a.val :: (around c).2).Pairwise fun e e' => e.size < e'.size := by
      simpa [fork] using ho
    have he := erase_range ho'
    simpa [fork, Entry.range, Entry.copy] using he.symm
  · have ho' : ((around c).1 ++ a.val :: b.val :: (around c).2).Pairwise fun e e' => e.size < e'.size := by
      simpa [fork] using ho
    have he := erase_range ho'
    simpa [fork, Entry.range, Entry.copy] using he.symm

lemma Represents.exists_deleteNode_leaf {rest : Ptr → RbNode} {s : RbState} {f : Frame (Cell Entry)} {c : RbPath} {a : Cell Entry}
    {fuel : ℕ} (h : Represents rest s (plug (f :: c) (node a nil nil))) (hb : RedBlack (plug (f :: c) (node a nil nil)))
    (hs : a.val.size > f.value.val.size ↔ f.side = .right) (hf : climb (f :: c) < fuel) :
    ∃ q s', deleteFix (f :: c) a.color = some q ∧ deleteNode fuel s a.val.ptr = .ok s' ∧
      Represents s'.nodes s' (plug q.2 nil) := by
  obtain ⟨q, hq⟩ := exists_deleteFix_of_redBlack hb
  have hd := h.deleteNode_leaf hs (.inl hf)
  rw [hq] at hd
  obtain ⟨s', e, h', -⟩ := hd
  exact ⟨q, s', hq, e, h'⟩

lemma Represents.deleteNode_both_ranges {rest : Ptr → RbNode} {s : RbState} {c : RbPath} {a : Cell Entry} {l r : RbTree}
    {fuel : ℕ} (h : Represents rest s (plug c (node a l r))) (hb : RedBlack (plug c (node a l r)))
    (ho : StrictlySorted (plug c (node a l r))) (hl : l ≠ nil) (hr : r ≠ nil)
    (hf : 2 * (ptrs (plug c (node a l r))).length < fuel) :
    ∃ s' t, deleteNode fuel s a.val.ptr = .ok s' ∧ Represents s'.nodes s' t ∧
      (ranges t = (ranges (plug c (node a l r))).erase a.val.range ↔ leftChild (rightmostNode l) = nil) := by
  obtain ⟨b, x, hm⟩ := exists_rightmostNode hl
  have hw := plug_rightPath (⟨.left, a, r⟩ :: c) l
  obtain ⟨rs, hrs, hside⟩ := rightPath_eq (⟨.left, a, r⟩ :: c) l
  rw [hm, hrs] at hw
  obtain ⟨q, hq⟩ := exists_deleteFix_of_redBlack (c := rs ++ ⟨.left, a, r⟩ :: c) (b := b) (x := x) (y := nil)
    (by rw [hw]; exact hb)
  rcases h.deleteNode_both hl hr hm (.inl hf) with
    ⟨hno, _⟩ | ⟨k, p, f, c', k', hq', hk, hfs, hfv, _, _, s', e, h', _⟩
  · rw [hrs, hq] at hno
    simp at hno
  rw [hrs] at hk
  obtain ⟨l₁, l₂, h₁, h₂⟩ := vals_takeOver (k := k') (b := b) (x := x) hside hk hfs hfv
    (by rw [hw]; exact h.distinct)
  refine ⟨s', _, e, h', ?_⟩
  have hT : vals (plug c (node a l r)) = l₁ ++ vals x ++ b.val :: a.val :: l₂ := by
    rw [← h₁, hw]
    rfl
  rw [StrictlySorted, hT] at ho
  have ho' : ((l₁ ++ vals x ++ [b.val]) ++ a.val :: l₂).Pairwise fun e e' => e.size < e'.size := by simpa using ho
  have he := erase_range ho'
  rw [ranges, ranges, h₂, hT, hm, leftChild]
  rw [List.append_assoc _ [b.val], List.singleton_append] at he
  rw [he]
  constructor
  · intro hx
    have := congrArg List.length hx
    simp at this
    by_contra hx
    exact absurd this (vals_ne_nil.mpr hx)
  · rintro rfl
    simp [Entry.range, Entry.copy]

lemma Represents.deleteNode_ranges {rest : Ptr → RbNode} {s : RbState} {c : RbPath} {a : Cell Entry} {l r : RbTree}
    {fuel : ℕ} (h : Represents rest s (plug c (node a l r))) (hb : RedBlack (plug c (node a l r)))
    (ho : StrictlySorted (plug c (node a l r))) (h2 : 2 ≤ (ptrs (plug c (node a l r))).length)
    (hf : 2 * (ptrs (plug c (node a l r))).length < fuel) :
    ∃ s' t, deleteNode fuel s a.val.ptr = .ok s' ∧ Represents s'.nodes s' t ∧
      (ranges t = (ranges (plug c (node a l r))).erase a.val.range ↔
        (l ≠ nil → r ≠ nil → leftChild (rightmostNode l) = nil)) := by
  have hlen := (ptrs_plug c (node a l r)).length_eq
  have hclimb := climb_le c
  rw [List.length_append] at hlen
  have hpos : 0 < (ptrs (node a l r)).length := List.length_pos_of_mem (mem_ptrs_node.mpr (.inl rfl))
  by_cases hl : l = nil
  · subst hl
    by_cases hr : r = nil
    · subst hr
      rcases c with _ | ⟨f, c⟩
      · simp [ptrs] at h2
      obtain ⟨q, s', hq, e, h'⟩ := h.exists_deleteNode_leaf hb ho.parent_lt (show _ < fuel by omega)
      refine ⟨s', _, e, h', iff_of_true ?_ (by simp)⟩
      have hk := (deleteFix_rebalances hq).keeps
      rw [StrictlySorted, vals_plug_around] at ho
      rw [ranges, ranges, hk.vals_plug rfl, vals_plug_around, vals_plug_around]
      simp only [vals_node, vals_nil, List.nil_append, List.append_nil, List.append_assoc, List.singleton_append] at ho ⊢
      exact (erase_range ho).symm
    · obtain ⟨s', t, e, h', hr⟩ := h.deleteNode_lone (d := .right) hb ho hr (show _ < fuel by omega)
      exact ⟨s', t, e, h', iff_of_true hr (by simp)⟩
  · by_cases hr : r = nil
    · subst hr
      obtain ⟨s', t, e, h', hr⟩ := h.deleteNode_lone (d := .left) hb ho hl (show _ < fuel by omega)
      exact ⟨s', t, e, h', iff_of_true hr (by simp)⟩
    · obtain ⟨s', t, e, h', hiff⟩ := h.deleteNode_both_ranges hb ho hl hr hf
      exact ⟨s', t, e, h', hiff.trans ⟨fun hx _ _ => hx, fun hx => hx hl hr⟩⟩

/-- `delete_node` leaves the other ranges alone exactly when the node has a missing child or
its in-order predecessor has no left child. -/
theorem deleteNode_ranges_iff {rest : Ptr → RbNode} {s : RbState} {c : RbPath} {a : Cell Entry} {l r : RbTree}
    {fuel : ℕ} (h : Represents rest s (plug c (node a l r))) (hb : RedBlack (plug c (node a l r)))
    (ho : StrictlySorted (plug c (node a l r))) (h2 : 2 ≤ (ptrs (plug c (node a l r))).length)
    (hf : 2 * (ptrs (plug c (node a l r))).length < fuel) :
    (∃ s' t, deleteNode fuel s a.val.ptr = .ok s' ∧ Represents s'.nodes s' t ∧
      ranges t = (ranges (plug c (node a l r))).erase a.val.range) ↔
    (l ≠ nil → r ≠ nil → leftChild (rightmostNode l) = nil) := by
  obtain ⟨s', t, e, h', hiff⟩ := h.deleteNode_ranges hb ho h2 hf
  exact (h'.exists_iff e).trans hiff

def threeRanges : RbTree :=
  node ⟨.black, 64, 0, 0x10000, 0x2000, 3⟩ (node ⟨.black, 32, 0, 0x1000, 0x1000, 3⟩ nil nil)
    (node ⟨.black, 96, 0, 0x20000, 0x3000, 3⟩ nil nil)

def emptyStore : Ptr → RbNode := fun _ => ⟨0, 0, 0, 0, .black, 0, 0, 0⟩

theorem deleteNode_ranges_iff_root : ∃ s' t, deleteNode 7 ⟨lay emptyStore 0 threeRanges, 64⟩ 64 = .ok s' ∧
    Represents s'.nodes s' t ∧ ranges t = [(0x1000, 0x1000), (0x20000, 0x3000)] :=
  (deleteNode_ranges_iff (c := []) (represents_lay emptyStore (t := threeRanges) (by decide) (by decide))
    ⟨rfl, ⟨by decide, ⟨by decide, trivial, trivial⟩, by decide, trivial, trivial⟩, 2, 1, rfl,
      ⟨0, rfl, rfl, rfl⟩, 0, rfl, rfl, rfl⟩ (by decide) (by decide) (by decide)).mpr fun _ _ => rfl

/-- A valid tree in which the predecessor of the root has a left child. -/
def fourRanges : RbTree :=
  node ⟨.black, 64, 0, 0x10000, 0x3000, 3⟩
    (node ⟨.black, 32, 0, 0x4000, 0x2000, 3⟩ (node ⟨.red, 128, 0, 0x1000, 0x1000, 3⟩ nil nil) nil)
    (node ⟨.black, 96, 0, 0x20000, 0x4000, 3⟩ nil nil)

lemma fourRanges_redBlack : RedBlack fourRanges :=
  ⟨rfl, ⟨by decide, ⟨by decide, ⟨by decide, trivial, trivial⟩, trivial⟩, by decide, trivial, trivial⟩, 2, 1, rfl,
    ⟨0, rfl, ⟨rfl, rfl⟩, rfl⟩, 0, rfl, rfl, rfl⟩

/-- Deleting the root of `fourRanges` also loses the range of 0x1000 bytes. -/
theorem deleteNode_loses_range :
    (Represents emptyStore ⟨lay emptyStore 0 fourRanges, 64⟩ fourRanges ∧ RedBlack fourRanges ∧
      StrictlySorted fourRanges) ∧
    ∀ fuel, 8 < fuel → ¬ ∃ s' t, deleteNode fuel ⟨lay emptyStore 0 fourRanges, 64⟩ 64 = .ok s' ∧
      Represents s'.nodes s' t ∧ ranges t = (ranges fourRanges).erase (0x10000, 0x3000) := by
  have h := represents_lay emptyStore (t := fourRanges) (by decide) (by decide)
  have hb := fourRanges_redBlack
  have ho : StrictlySorted fourRanges := by decide
  refine ⟨⟨h, hb, ho⟩, ?_⟩
  intro fuel hf hkept
  obtain ⟨s', t, e, h', hiff⟩ := Represents.deleteNode_ranges (c := []) h hb ho (by decide) hf
  have := hiff.mp ((h'.exists_iff e).mp hkept) (by simp) (by simp)
  simp [rightmostNode, leftChild] at this

end WordOS.Utils
