import WordOS.Utils.RbDeleteRoot

/-! `delete_node` gives nothing but ranges of the tree back, also where the tree is out of balance. -/

namespace WordOS.Utils

open Machine BinaryTree Lib.Zipper Lib.ColoredTree

/-- A node without children is looked for on its own side, and an only child has no children. -/
def CutsCleanly (c : RbPath) (a : Cell Entry) : RbTree → RbTree → Prop
  | nil, nil => ∀ f ∈ c.head?, (a.val.size > f.value.val.size ↔ f.side = .right)
  | node _ nil nil, nil => True
  | nil, node _ nil nil => True
  | node _ _ _, node _ _ _ => True
  | _, _ => False

instance (c : RbPath) (a : Cell Entry) (l r : RbTree) : Decidable (CutsCleanly c a l r) :=
  match l, r with
  | nil, nil => inferInstanceAs (Decidable (∀ f ∈ c.head?, (a.val.size > f.value.val.size ↔ f.side = .right)))
  | node _ nil nil, nil => inferInstanceAs (Decidable True)
  | nil, node _ nil nil => inferInstanceAs (Decidable True)
  | node _ nil nil, node _ _ _ => inferInstanceAs (Decidable True)
  | node _ nil (node _ _ _), node _ _ _ => inferInstanceAs (Decidable True)
  | node _ (node _ _ _) _, node _ _ _ => inferInstanceAs (Decidable True)
  | node _ nil (node _ _ _), nil => inferInstanceAs (Decidable False)
  | node _ (node _ _ _) _, nil => inferInstanceAs (Decidable False)
  | nil, node _ nil (node _ _ _) => inferInstanceAs (Decidable False)
  | nil, node _ (node _ _ _) _ => inferInstanceAs (Decidable False)

/-- The tree `t'` in `s'` is what is left of the tree `t` in `s` without the range of `e`, or less. -/
structure Remains (s : RbState) (t : RbTree) (e : Entry) (s' : RbState) (t' : RbTree) : Prop where
  tree : Represents s'.nodes s' t'
  ranges : (e.range :: ranges t').Subperm (ranges t)
  ptrs : ∀ q ∈ ptrs t', q ∈ ptrs t
  outside : ∀ q, q ∉ Utils.ptrs t → s'.nodes q = s.nodes q
  taken : (∀ q ∈ Utils.ptrs t, (s.nodes q).Taken) → ∀ q ∈ Utils.ptrs t, (s'.nodes q).Taken

variable {rest : Ptr → RbNode} {s s' : RbState} {c : RbPath} {a b : Cell Entry} {l r t t' : RbTree} {d : Side} {fuel : ℕ}

lemma Leaves.remains {o : Option RbTree} {e : Entry} {p : RbTree → Prop} (h : Leaves s t (.ok s') o)
    (hv : ∀ t', o = some t' → ((e.range :: ranges t').Subperm (ranges t) ∧ ∀ q ∈ ptrs t', q ∈ ptrs t) ∧ p t') :
    ∃ t', Remains s t e s' t' ∧ p t' := by
  cases o with
  | none => cases h
  | some t' =>
    obtain ⟨u, he, htree, hout, htaken⟩ := h
    obtain rfl := Except.ok.inj he
    obtain ⟨⟨hr, hp⟩, hp'⟩ := hv t' rfl
    exact ⟨t', ⟨htree, hr, hp, hout, htaken⟩, hp'⟩

lemma vals_fork_perm (d : Side) (a : Cell Entry) (l r : RbTree) : (vals (fork d a l r)).Perm (a.val :: (vals l ++ vals r)) := by
  cases d
  · rw [fork, vals_node]
    exact List.perm_middle
  · rw [fork, vals_node]
    exact List.perm_middle.trans (List.perm_append_comm.cons _)

lemma vals_plug_perm (c : RbPath) (t : RbTree) : (vals (plug c t)).Perm (vals t ++ vals (plug c nil)) := by
  rw [vals_plug_around, vals_plug_around, vals_nil, List.append_nil]
  exact (List.perm_append_comm.append_right _).trans (by rw [List.append_assoc])

lemma subperm_ranges {e : Entry} {l' : List Entry} (h : (e :: l').Subperm (vals t))
    (hv : ((vals t').map Entry.range).Perm (l'.map Entry.range)) (hp : (vals t').map Entry.ptr ⊆ (vals t).map Entry.ptr) :
    (e.range :: ranges t').Subperm (ranges t) ∧ ∀ q ∈ ptrs t', q ∈ ptrs t := by
  refine ⟨?_, hp⟩
  obtain ⟨m, hm, hs⟩ := h
  refine ⟨m.map Entry.range, ?_, hs.map _⟩
  exact (hm.map Entry.range).trans (hv.symm.cons _)

namespace Represents

lemma deleteNode_last (h : Represents rest s (node a nil nil)) : deleteNode fuel s a.val.ptr ≠ .ok s' := by
  have hn : s.nodes a.val.ptr = _ := h.nodes_eq (c := []) (d := .left)
  have hz := h.ptr_ne_zero (c := []) (d := .left)
  have hl := h.load (c := []) (d := .left)
  cases fuel with
  | zero =>
    intro hd
    simp only [deleteNode, hl, ok_bind, record, addr_nil, h.root, addr_node, and_self, if_true] at hd
    obtain ⟨u, -, hd⟩ := bind_eq_ok.mp hd
    obtain ⟨u, hu, -⟩ := bind_eq_ok.mp hd
    cases hu
  | succ fuel =>
    rw [deleteNode_sole hz (by rw [hn]; rfl) (by rw [hn]; rfl) (by rw [hn]; rfl)]
    simp

lemma deleteNode_leaf_clean {f : Frame (Cell Entry)} (h : Represents rest s (plug (f :: c) (node a nil nil)))
    (hs : a.val.size > f.value.val.size ↔ f.side = .right) (hd : deleteNode fuel s a.val.ptr = .ok s') :
    ∃ t', Remains s (plug (f :: c) (node a nil nil)) a.val s' t' ∧
      (ranges t').length + 1 = (ranges (plug (f :: c) (node a nil nil))).length := by
  have hL := h.deleteNode_leaf hs (.inr (ne_fuel hd))
  rw [hd] at hL
  apply hL.remains
  intro t' ht
  obtain ⟨q, hq, rfl⟩ := Option.map_eq_some_iff.mp ht
  have hv : vals (plug q.2 nil) = vals (plug (f :: c) nil) := (deleteFix_rebalances hq).keeps.vals_plug rfl
  have hperm : (vals (plug (f :: c) (node a nil nil))).Perm (a.val :: vals (plug (f :: c) nil)) := vals_plug_perm ..
  constructor
  · apply subperm_ranges hperm.symm.subperm (by rw [hv])
    rw [hv]
    exact List.map_subset _ fun e he => hperm.mem_iff.mpr (List.mem_cons_of_mem _ he)
  · rw [ranges, ranges, List.length_map, List.length_map, hv, hperm.length_eq, List.length_cons]

lemma deleteNode_single_clean (h : Represents rest s (plug c (fork d a (node b nil nil) nil)))
    (hd : deleteNode fuel s a.val.ptr = .ok s') :
    ∃ t', Remains s (plug c (fork d a (node b nil nil) nil)) a.val s' t' ∧
      (ranges t').length + 1 = (ranges (plug c (fork d a (node b nil nil) nil))).length := by
  have hS := h.deleteNode_single (.inr (ne_fuel hd))
  by_cases hb : b.color = .red
  · obtain ⟨k, -, -, hL⟩ := hS.2 hb
    rw [hd] at hL
    apply hL.remains
    rintro t' ⟨⟩
    have hperm : (vals (plug c (fork d a (node b nil nil) nil))).Perm (a.val :: b.val :: vals (plug c nil)) :=
      (vals_plug_perm ..).trans ((vals_fork_perm ..).append_right _)
    have hperm' : (vals (plug c (node ⟨k, b.val.copy a.val⟩ nil nil))).Perm (b.val.copy a.val :: vals (plug c nil)) :=
      vals_plug_perm ..
    constructor
    · apply subperm_ranges hperm.symm.subperm (hperm'.map Entry.range)
      intro q hq
      rw [(hperm'.map _).mem_iff] at hq
      rw [(hperm.map _).mem_iff]
      simp only [List.map_cons, List.mem_cons] at hq ⊢
      exact hq.imp id .inr
    · rw [ranges, ranges, List.length_map, List.length_map, hperm.length_eq, hperm'.length_eq, List.length_cons,
        List.length_cons, List.length_cons]
  · have := hS.1 hb
    rw [hd] at this
    cases this

lemma deleteNode_both_clean (h : Represents rest s (plug c (node a l r))) (hl : l ≠ nil) (hr : r ≠ nil)
    (hd : deleteNode fuel s a.val.ptr = .ok s') :
    ∃ t', Remains s (plug c (node a l r)) a.val s' t' ∧
      (leftChild (rightmostNode l) = nil → (ranges t').length + 1 = (ranges (plug c (node a l r))).length) := by
  obtain ⟨b, x, hm⟩ := exists_rightmostNode hl
  have hw := plug_rightPath (⟨.left, a, r⟩ :: c) l
  obtain ⟨rs, hrs, hside⟩ := rightPath_eq (⟨.left, a, r⟩ :: c) l
  rw [hm, hrs] at hw
  rcases h.deleteNode_both hl hr hm (.inr (ne_fuel hd)) with ⟨-, hno⟩ | ⟨k, p, f, c', k', -, hk, hfs, hfv, -, -, hL⟩
  · rw [hd] at hno
    cases hno
  rw [hrs] at hk
  obtain ⟨l₁, l₂, h₁, h₂⟩ := vals_takeOver (k := k') (b := b) (x := x) hside hk hfs hfv
    (by rw [hw]; exact h.distinct)
  have hT : vals (plug c (node a l r)) = l₁ ++ vals x ++ b.val :: a.val :: l₂ := by
    rw [← h₁, hw]
    rfl
  rw [hd] at hL
  apply hL.remains
  rintro t' ⟨⟩
  have hsub : (a.val :: (l₁ ++ b.val :: l₂)).Subperm (vals (plug c (node a l r))) := by
    rw [hT]
    have hperm : (a.val :: (l₁ ++ b.val :: l₂)).Perm (l₁ ++ b.val :: a.val :: l₂) := by
      have hmid : (a.val :: ((l₁ ++ [b.val]) ++ l₂)).Perm ((l₁ ++ [b.val]) ++ a.val :: l₂) := List.perm_middle.symm
      simpa using hmid
    refine hperm.subperm.trans (List.Sublist.subperm ?_)
    rw [List.append_assoc]
    exact (List.sublist_append_right _ _).append_left _
  constructor
  · apply subperm_ranges hsub
    · rw [h₂, List.map_append, List.map_cons, List.map_append, List.map_cons]
      rfl
    · rw [h₂, hT]
      intro q hq
      simp only [List.map_append, List.map_cons, List.mem_append, List.mem_cons] at hq ⊢
      change _ ∨ q = a.val.ptr ∨ _ at hq
      tauto
  · intro hx
    rw [hm] at hx
    obtain rfl : x = nil := hx
    rw [ranges, ranges, List.length_map, List.length_map, h₂, hT]
    simp
    omega

lemma deleteNode_clean (h : Represents rest s (plug c (node a l r))) (hc : CutsCleanly c a l r)
    (hd : deleteNode fuel s a.val.ptr = .ok s') :
    ∃ t', Remains s (plug c (node a l r)) a.val s' t' ∧ ((l ≠ nil → r ≠ nil → leftChild (rightmostNode l) = nil) →
      (ranges t').length + 1 = (ranges (plug c (node a l r))).length) := by
  rcases l with _ | ⟨b, x, y⟩ <;> rcases r with _ | ⟨e, z, w⟩
  · rcases c with _ | ⟨f, c⟩
    · exact (deleteNode_last h hd).elim
    · obtain ⟨t', ht, hl⟩ := h.deleteNode_leaf_clean (hc f rfl) hd
      exact ⟨t', ht, fun _ => hl⟩
  · cases z <;> cases w <;> try exact hc.elim
    obtain ⟨t', ht, hl⟩ := deleteNode_single_clean (d := .right) h hd
    exact ⟨t', ht, fun _ => hl⟩
  · cases x <;> cases y <;> try exact hc.elim
    obtain ⟨t', ht, hl⟩ := deleteNode_single_clean (d := .left) h hd
    exact ⟨t', ht, fun _ => hl⟩
  · obtain ⟨t', ht, hl⟩ := h.deleteNode_both_clean (by simp) (by simp) hd
    exact ⟨t', ht, fun hx => hl (hx (by simp) (by simp))⟩

end Represents

end WordOS.Utils
