import WordOS.Utils.RbDeleteRanges

/-! When the tree `delete_node` leaves is balanced again. -/

namespace WordOS.Utils

open Machine BinaryTree Lib.Zipper Lib.ColoredTree

/-- Of the two nephews a sibling on the other side than `d` gives, only the far one is red. -/
def FarOnly (d : Side) : RbTree → Prop
  | nil => False
  | node _ l r => color (d.pick l r) ≠ .red ∧ color (d.pick r l) = .red

/-- When `delete_violations` can make up for a black node missing in the hole of a path: it
climbs past black siblings with black nephews and must not stop where only the far nephew
is red. Past a red sibling the near nephew counts as the sibling. -/
def Repairs : RbPath → Prop
  | [] => True
  | f :: c =>
    match f.sibling with
    | nil => False
    | node m l r =>
      if m.color = .red then ¬ FarOnly f.side (f.side.pick l r)
      else ¬ FarOnly f.side (node m l r) ∧
        (color (f.side.pick l r) ≠ .red → f.value.color = .black → Repairs c)

lemma farOnly_fork (d : Side) (m : Cell Entry) (near far : RbTree) :
    FarOnly d (fork d m near far) ↔ color near ≠ .red ∧ color far = .red := by
  cases d <;> rfl

lemma repairs_fork (d : Side) (b m : Cell Entry) (near far : RbTree) (c : RbPath) :
    Repairs (⟨d, b, fork d m near far⟩ :: c) ↔
      if m.color = .red then ¬ FarOnly d near
      else ¬ (color near ≠ .red ∧ color far = .red) ∧ (color near ≠ .red → b.color = .black → Repairs c) := by
  rw [← farOnly_fork d m]
  cases d <;> exact Iff.rfl

lemma Rebalances.ne_red {c : RbPath} {k : Color} {q : Color × RbPath} (h : Rebalances c k q) (hk : k ≠ .red) :
    q.1 ≠ .red := by
  induction h with
  | red => exact hk
  | lift _ _ _ ih => exact ih (by simp)
  | _ => simp

/-- The path after the sibling of a black node with a red near nephew moved up. -/
lemma borrow_balanced {d : Side} {b m : Cell Entry} {near far : RbTree} {c : RbPath} {n : ℕ}
    (hm : m.color = .black) (hnear : color near = .red) (hn : PathNoRedRed (⟨d, b, fork d m near far⟩ :: c))
    (hh : PathHeight (n + 1) (⟨d, b, fork d m near far⟩ :: c)) :
    PathNoRedRed (paintFar (lift d b c (alignSibling d (fork d m near far)))) ∧
      PathHeight n (paintFar (lift d b c (alignSibling d (fork d m near far)))) := by
  obtain ⟨hb, hs, hc⟩ := hn
  rw [noRedRed_fork, hm] at hs
  obtain ⟨_, hnn, hnf⟩ := hs
  have hh' : (Height n near ∧ Height n far) ∧ ∀ t : RbTree, Height (n + 1) t →
      PathHeight (n + 1) (⟨d, b, t⟩ :: c) := by
    rcases hbc : b.color
    · rw [pathHeight_red hbc, height_black hm] at hh
      exact ⟨hh.1, fun t ht => (pathHeight_red hbc).mpr ⟨ht, hh.2⟩⟩
    · rw [pathHeight_black hbc, height_black hm] at hh
      exact ⟨hh.1, fun t ht => (pathHeight_black hbc).mpr ⟨ht, hh.2⟩⟩
    · simp [PathHeight, hbc] at hh
  obtain ⟨⟨hhn, hhf⟩, hup⟩ := hh'
  rw [alignSibling_fork]
  split_ifs with hf
  · obtain ⟨e, p, q, rfl⟩ := exists_fork (t := near) (by rintro rfl; simp at hnear) d
    rw [color_fork] at hnear
    rw [noRedRed_fork, hnear] at hnn
    rw [height_red hnear] at hhn
    rw [paint_fork, rot_fork, lift_fork, paintFar, paint_fork, Cell.paint_paint]
    refine ⟨⟨by simp, hnn.2.1.under (by simp), hb, ?_, hc⟩,
      (pathHeight_black rfl).mpr ⟨hhn.1, hup _ ((height_black rfl).mpr ⟨hhn.2, hhf⟩)⟩⟩
    rw [noRedRed_fork]
    exact ⟨by simp, hnn.2.2.under (by simp), hnf⟩
  · have hfr := hhf.color_cases.resolve_right hf
    rw [lift_fork, paintFar, hm]
    exact ⟨⟨by simp, hnn, hb, hnf.paint_black, hc⟩, (pathHeight_black rfl).mpr ⟨hhn, hup _ (hhf.paint_black hfr)⟩⟩

lemma Rebalances.repairs {c : RbPath} {k : Color} {q : Color × RbPath} (h : Rebalances c k q) (hk : k ≠ .red)
    {n : ℕ} (hn : PathNoRedRed c) (hh : PathHeight (n + 1) c) :
    Repairs c ∧ q.1 = .black ∧ PathNoRedRed q.2 ∧ PathHeight n q.2 ∨ ¬ Repairs c ∧ ¬ PathHeight n q.2 := by
  induction h generalizing n with
  | root => exact .inl ⟨trivial, rfl, trivial, trivial⟩
  | red => exact (hk rfl).elim
  | @climb d b m near far c k q _ hm hnear hfar hb hq ih =>
    obtain ⟨_, hs, hc⟩ := hn
    rw [noRedRed_fork, hb, hm] at hs
    rw [pathHeight_black hb, height_black hm] at hh
    obtain ⟨⟨hhn, hhf⟩, hhc⟩ := hh
    have hrep : Repairs (⟨d, b, fork d m near far⟩ :: c) ↔ Repairs c := by
      rw [repairs_fork]
      simp [hm, hnear, hfar, hb]
    rw [hrep]
    rcases ih (by simp) hc hhc with ⟨hr, hq1, hqn, hqh⟩ | ⟨hr, hqh⟩
    · refine .inl ⟨hr, rfl, ⟨by simp [hq1], ?_, hqn⟩, ?_⟩
      · rw [hq1, noRedRed_fork]
        exact ⟨by simp, hs.2.1.under (by simp [hnear]), hs.2.2.under (by simp [hfar])⟩
      · exact (pathHeight_black hq1).mpr ⟨(height_red rfl).mpr ⟨hhn, hhf⟩, hqh⟩
    · refine .inr ⟨hr, fun hp => hqh ?_⟩
      rcases hq1 : q.1
      · exact (hq.ne_red (by simp) hq1).elim
      · exact ((pathHeight_black hq1).mp hp).2
      · simp [PathHeight, hq1] at hp
  | @absorb d b m near far c k _ hm hnear hfar hb =>
    obtain ⟨_, hs, hc⟩ := hn
    have hbr : b.color = .red := by
      rcases hbc : b.color
      · rfl
      · exact (hb hbc).elim
      · simp [PathHeight, hbc] at hh
    rw [noRedRed_fork, hm] at hs
    rw [pathHeight_red hbr, height_black hm] at hh
    refine .inl ⟨?_, rfl, ⟨by simp, ?_, hc⟩, (pathHeight_black rfl).mpr ⟨(height_red rfl).mpr hh.1, hh.2⟩⟩
    · rw [repairs_fork]
      simp [hm, hfar, hbr]
    · rw [noRedRed_fork]
      exact ⟨by simp, hs.2.1.under (by simp [hnear]), hs.2.2.under (by simp [hfar])⟩
  | @lift d b m near far c k q _ hm hq ih =>
    obtain ⟨_, hs, hc⟩ := hn
    rw [noRedRed_fork, hm] at hs
    have hb : b.color = .black := by
      rcases hbc : b.color
      · exact (hs.1 ⟨hbc, rfl⟩).elim
      · rfl
      · simp [PathHeight, hbc] at hh
    rw [pathHeight_black hb, height_red hm] at hh
    rw [lift_fork, hm, hb] at ih
    have hrep : Repairs (⟨d, b, fork d m near far⟩ :: c) ↔
        Repairs (⟨d, b.paint .red, near⟩ :: ⟨d, m.paint .black, far⟩ :: c) := by
      rw [repairs_fork, if_pos hm]
      obtain ⟨e, p, r, rfl⟩ := exists_fork (t := near) (by rintro rfl; simp [Height] at hh) d
      have he : e.color ≠ .red := fun he => ((noRedRed_fork ..).mp hs.2.1).1 ⟨rfl, he⟩
      rw [repairs_fork, if_neg he, farOnly_fork]
      simp
    rw [hrep]
    refine ih (by simp) ⟨by simp [above], hs.2.1, by simp, hs.2.2.under (by simp), hc⟩ ?_
    exact (pathHeight_red rfl).mpr ⟨hh.1.1, (pathHeight_black rfl).mpr ⟨hh.1.2, hh.2⟩⟩
  | @borrow d b m near far c k _ hm hnear =>
    obtain ⟨h₁, h₂⟩ := borrow_balanced hm hnear hn hh
    exact .inl ⟨by rw [repairs_fork]; simp [hm, hnear], rfl, h₁, h₂⟩
  | @stuck d b m near far c k _ hm hno =>
    refine .inr ⟨?_, fun hp => by simpa using PathHeight.unique (by simp) hp hh⟩
    have hs : Height (n + 1) (fork d m near far) := by
      rcases hbc : b.color
      · exact ((pathHeight_red hbc).mp hh).1
      · exact ((pathHeight_black hbc).mp hh).1
      · simp [PathHeight, hbc] at hh
    have hmb : m.color = .black := by
      simpa [hm] using hs.color_cases
    obtain ⟨hnear, hfar⟩ := hno hmb
    rw [height_black hmb] at hs
    have hnb := hs.1.color_cases.resolve_left hnear
    have hfr := hs.2.color_cases.resolve_right fun hf => hfar ⟨hnb, hf⟩
    rw [repairs_fork]
    simp [hm, hnear, hfr]

lemma redBlack_gap (c : RbPath) : RedBlack (plug c nil) ↔ PathNoRedRed c ∧ PathHeight 0 c := by
  rw [redBlack_plug]
  constructor
  · rintro ⟨_, hc, n, rfl, hh⟩
    exact ⟨hc, hh⟩
  · rintro ⟨hc, hh⟩
    exact ⟨trivial, hc, 0, rfl, hh⟩

lemma redBlack_removed {c : RbPath} {b : Cell Entry} {x : RbTree} {q : Color × RbPath}
    (h : RedBlack (plug c (node b x nil))) (hq : deleteFix c b.color = some q) :
    RedBlack (plug q.2 nil) ↔ b.color = .red ∨ Repairs c := by
  obtain ⟨hn, hc, n, hh, hp⟩ := (redBlack_plug ..).mp h
  rw [redBlack_gap]
  rcases hb : b.color <;> simp only [Height, hb] at hh
  · obtain rfl : n = 0 := hh.2
    cases c with
    | nil => exact (hn.1 ⟨rfl, hb⟩).elim
    | cons f c =>
      rw [hb, deleteFix_red] at hq
      obtain rfl := Option.some.inj hq
      exact iff_of_true ⟨hc, hp⟩ (.inl rfl)
  · obtain ⟨m, rfl, _, rfl⟩ := hh
    rcases (deleteFix_rebalances hq).repairs (by simp [hb]) hc hp with ⟨hr, _, h₁, h₂⟩ | ⟨hr, h₂⟩
    · exact iff_of_true ⟨h₁, h₂⟩ (.inr hr)
    · simp [hr, h₂]

lemma redBlack_gap_val (p c : RbPath) (f : Frame (Cell Entry)) (d : Side) (e : Entry) :
    RedBlack (plug (p ++ ⟨d, ⟨f.value.color, e⟩, f.sibling⟩ :: c) nil) ↔ RedBlack (plug (p ++ f :: c) nil) := by
  have ha : ∀ p : RbPath, above (p ++ ⟨d, ⟨f.value.color, e⟩, f.sibling⟩ :: c) = above (p ++ f :: c) := by
    intro p
    cases p <;> rfl
  have hn : PathNoRedRed (p ++ ⟨d, ⟨f.value.color, e⟩, f.sibling⟩ :: c) ↔ PathNoRedRed (p ++ f :: c) := by
    induction p with
    | nil => exact Iff.rfl
    | cons g p ih => simp only [List.cons_append, PathNoRedRed, ih, ha]
  have hh : ∀ n, PathHeight n (p ++ ⟨d, ⟨f.value.color, e⟩, f.sibling⟩ :: c) ↔ PathHeight n (p ++ f :: c) := by
    clear hn
    induction p with
    | nil => exact fun _ => Iff.rfl
    | cons g p ih =>
      intro n
      simp only [List.cons_append, PathHeight, ih]
  rw [redBlack_gap, redBlack_gap, hn, hh]

lemma color_plug {c : RbPath} (hc : c ≠ []) (t : RbTree) : color (plug c t) = rootColor c := by
  induction c generalizing t with
  | nil => exact (hc rfl).elim
  | cons f c ih =>
    rcases c with _ | ⟨g, c⟩
    · simp [Frame.plug, rootColor]
    · exact ih (by simp) (f.plug t)

lemma rootColor_of_redBlack {c : RbPath} {t : RbTree} (h : RedBlack (plug c t)) : rootColor c = .black := by
  by_cases hc : c = []
  · rw [hc, rootColor]
  · rw [← color_plug hc t, h.root_black]

lemma rootColor_last (p : RbPath) (f : Frame (Cell Entry)) : rootColor (p ++ [f]) = f.value.color := by
  induction p with
  | nil => rfl
  | cons g p ih => rw [List.cons_append, rootColor_cons (by simp), ih]

/-- When `delete_node` rebalances the tree it takes the node `a` out of. -/
def Restores (c : RbPath) (a : Cell Entry) : RbTree → RbTree → Prop
  | nil, nil => a.color = .red ∨ Repairs c
  | node _ _ _, nil => c = []
  | nil, node _ _ _ => c = []
  | node b x y, node e z w =>
    color (rightmostNode (node b x y)) = .red ∨
      Repairs (rightPath (⟨.left, a, node e z w⟩ :: c) (node b x y))

lemma Represents.deleteNode_lone_redBlack {rest : Ptr → RbNode} {s : RbState} {c : RbPath} {a : Cell Entry}
    {t : RbTree} {d : Side} {fuel : ℕ} (h : Represents rest s (plug c (fork d a t nil)))
    (hb : RedBlack (plug c (fork d a t nil))) (ht : t ≠ nil) (hf : 2 * (pathPtrs c).length + 1 < fuel) :
    ∃ s' t', deleteNode fuel s a.val.ptr = .ok s' ∧ Represents s'.nodes s' t' ∧ (RedBlack t' ↔ c = []) := by
  obtain ⟨hn, hcn, n, hh, hch⟩ := (redBlack_plug ..).mp hb
  obtain ⟨hab, b, rfl, hbr⟩ := (lone_child hn hh).resolve_left ht
  have hclimb : climb (⟨d, a, nil⟩ :: c) < fuel := (climb_lone_le d a c).trans_lt hf
  obtain ⟨k, hk₁, hk₂, s', e, h', _⟩ := (h.deleteNode_single (.inl hclimb)).2 hbr
  refine ⟨s', _, e, h', ?_⟩
  by_cases hc : c = []
  · subst hc
    refine iff_of_true ?_ rfl
    obtain rfl := hk₁ rfl
    exact ⟨rfl, ⟨by simp, trivial, trivial⟩, 1, 0, rfl, rfl, rfl⟩
  · refine iff_of_false ?_ hc
    obtain rfl := hk₂ hc
    intro hr
    obtain ⟨_, _, m, hm, hcm⟩ := (redBlack_plug ..).mp hr
    obtain rfl : m = 0 := hm.1
    simp only [height_fork, hab] at hh
    obtain ⟨j, rfl, _, rfl⟩ := hh
    simpa using PathHeight.unique hc hcm hch

lemma Represents.deleteNode_redBlack {rest : Ptr → RbNode} {s : RbState} {c : RbPath} {a : Cell Entry} {l r : RbTree}
    {fuel : ℕ} (h : Represents rest s (plug c (node a l r))) (hb : RedBlack (plug c (node a l r)))
    (ho : StrictlySorted (plug c (node a l r))) (h2 : 2 ≤ (ptrs (plug c (node a l r))).length)
    (hf : 2 * (ptrs (plug c (node a l r))).length < fuel) :
    ∃ s' t, deleteNode fuel s a.val.ptr = .ok s' ∧ Represents s'.nodes s' t ∧ (RedBlack t ↔ Restores c a l r) := by
  have hlen := (ptrs_plug c (node a l r)).length_eq
  have hclimb := climb_le c
  rw [List.length_append] at hlen
  have hpos : 0 < (ptrs (node a l r)).length := List.length_pos_of_mem (mem_ptrs_node.mpr (.inl rfl))
  rcases l with _ | ⟨b₀, x₀, y₀⟩ <;> rcases r with _ | ⟨e, z, w⟩
  · rcases c with _ | ⟨f, c⟩
    · simp [ptrs] at h2
    obtain ⟨q, s', hq, e, h'⟩ := h.exists_deleteNode_leaf hb ho.parent_lt (show _ < fuel by omega)
    exact ⟨s', _, e, h', redBlack_removed hb hq⟩
  · exact h.deleteNode_lone_redBlack (d := .right) hb (by simp) (show _ < fuel by omega)
  · exact h.deleteNode_lone_redBlack (d := .left) hb (by simp) (show _ < fuel by omega)
  · obtain ⟨b, x, q, hm, hb', hq⟩ :=
      exists_predecessor (c := ⟨.left, a, node e z w⟩ :: c) (l := node b₀ x₀ y₀) (by simp) hb
    rcases h.deleteNode_both (by simp) (by simp) hm (.inl (show _ < fuel by omega)) with
      ⟨hno, _⟩ | ⟨k, p, f, c', k', hq', hk, hfs, hfv, hk₁, hk₂, s', e', h', _⟩
    · rw [hq] at hno
      simp at hno
    have hcol : k' = f.value.color := by
      by_cases hc' : c' = []
      · have := (deleteFix_rebalances hq').rootColor (rootColor_of_redBlack hb')
        rw [hk₁ hc', ← rootColor_last p f, ← this, hc']
      · exact hk₂ hc'
    refine ⟨s', _, e', h', ?_⟩
    rw [hcol, redBlack_gap_val, redBlack_removed hb' hq', Restores, hm, color_node]

/-- `delete_node` leaves a valid red-black tree exactly when `Restores` says so. -/
theorem deleteNode_redBlack_iff {rest : Ptr → RbNode} {s : RbState} {c : RbPath} {a : Cell Entry} {l r : RbTree}
    {fuel : ℕ} (h : Represents rest s (plug c (node a l r))) (hb : RedBlack (plug c (node a l r)))
    (ho : StrictlySorted (plug c (node a l r))) (h2 : 2 ≤ (ptrs (plug c (node a l r))).length)
    (hf : 2 * (ptrs (plug c (node a l r))).length < fuel) :
    (∃ s' t, deleteNode fuel s a.val.ptr = .ok s' ∧ Represents s'.nodes s' t ∧ RedBlack t) ↔
      Restores c a l r := by
  obtain ⟨s', t, e, h', hiff⟩ := h.deleteNode_redBlack hb ho h2 hf
  exact (h'.exists_iff e).trans hiff

/-- A black leaf whose sibling has no red child. -/
theorem deleteNode_redBlack_iff_leaf : ∃ s' t, deleteNode 7 ⟨lay emptyStore 0 threeRanges, 64⟩ 32 = .ok s' ∧
    Represents s'.nodes s' t ∧ RedBlack t :=
  (deleteNode_redBlack_iff
    (c := [⟨.left, ⟨.black, 64, 0, 0x10000, 0x2000, 3⟩, node ⟨.black, 96, 0, 0x20000, 0x3000, 3⟩ nil nil⟩])
    (represents_lay emptyStore (t := threeRanges) (by decide) (by decide))
    ⟨rfl, ⟨by decide, ⟨by decide, trivial, trivial⟩, by decide, trivial, trivial⟩, 2, 1, rfl,
      ⟨0, rfl, rfl, rfl⟩, 0, rfl, rfl, rfl⟩ (by decide) (by decide) (by decide)).mpr
    (.inr ⟨fun hf => by simp [FarOnly, Side.pick] at hf, fun _ _ => trivial⟩)

/-- In `fourRanges` the black node 32 gives way to its red child and turns red itself. -/
theorem deleteNode_unbalances :
    (Represents emptyStore ⟨lay emptyStore 0 fourRanges, 64⟩ fourRanges ∧ RedBlack fourRanges ∧
      StrictlySorted fourRanges) ∧
    ∀ fuel, 8 < fuel → ¬ ∃ s' t, deleteNode fuel ⟨lay emptyStore 0 fourRanges, 64⟩ 32 = .ok s' ∧
      Represents s'.nodes s' t ∧ RedBlack t := by
  have h := represents_lay emptyStore (t := fourRanges) (by decide) (by decide)
  have hb := fourRanges_redBlack
  have ho : StrictlySorted fourRanges := by decide
  refine ⟨⟨h, hb, ho⟩, ?_⟩
  intro fuel hf hvalid
  obtain ⟨s', t, e, h', hiff⟩ := Represents.deleteNode_redBlack
    (c := [⟨.left, ⟨.black, 64, 0, 0x10000, 0x3000, 3⟩, node ⟨.black, 96, 0, 0x20000, 0x4000, 3⟩ nil nil⟩])
    (a := ⟨.black, 32, 0, 0x4000, 0x2000, 3⟩) (l := node ⟨.red, 128, 0, 0x1000, 0x1000, 3⟩ nil nil) (r := nil)
    h hb ho (by decide) hf
  have := hiff.mp ((h'.exists_iff e).mp hvalid)
  simp [Restores] at this

end WordOS.Utils
