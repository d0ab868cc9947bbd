import WordOS.Memory.VmmTree

/-! What `vmm_page_alloc` does to a free tree, up to the call of `delete_node`. -/

namespace WordOS.Memory

open Machine BinaryTree Utils Lib.Zipper Lib.ColoredTree

/-- The free tree of the VMM at `v`, and the number of slots taken from its store page. -/
structure Holds (s : VmmState) (v k : ℕ) (t : RbTree) : Prop where
  tree : Represents s.nodes (s.tree v) t
  taken : AllTaken t
  slots : Slots s.nodes (slotsOf s v) k

/-- The node at an address, as the path to it and the tree from it on. -/
def seek (p : Ptr) : RbPath → RbTree → Option (RbPath × RbTree)
  | _, nil => none
  | c, node a l r =>
    if a.val.ptr = p then some (c, node a l r)
    else (seek p (⟨.left, a, r⟩ :: c) l).orElse fun _ => seek p (⟨.right, a, l⟩ :: c) r

/-- The tree once what is left of the range `e` has a node of its own, in slot `k`. -/
def splitOff (start k length : ℕ) (t : RbTree) (e : Entry) : Option RbTree :=
  if e.size > length then
    insertFix (descend (e.size - length) [] (paint .black t))
      (node ⟨.red, newEntry start k (u32 (e.base + length)) (e.size - length) 0⟩ nil nil)
  else some t

/-- The node to be deleted for a range of `length` bytes. -/
def victim (start k length : ℕ) (t : RbTree) : Option (RbPath × RbTree) := do
  let (_, u) ← fit length [] t none
  match u with
  | nil => none
  | node a _ _ =>
    let t ← splitOff start k length t a.val
    seek a.val.ptr [] t

variable {s : VmmState} {v k length fuel base size id : ℕ} {t t' : RbTree} {n : Ptr → RbNode} {e : Entry}

lemma seek_none {p : Ptr} {c : RbPath} (hp : p ∉ ptrs t) : seek p c t = none := by
  induction t generalizing c with
  | nil => rfl
  | node a l r ihl ihr =>
    rw [mem_ptrs_node, not_or, not_or] at hp
    rw [seek, if_neg (Ne.symm hp.1), ihl hp.2.1, ihr hp.2.2]
    rfl

lemma seek_eq {p : Ptr} {c : RbPath} (hp : p ∈ ptrs t) :
    ∃ c' a l r, seek p c t = some (c', node a l r) ∧ a.val.ptr = p ∧ plug c' (node a l r) = plug c t := by
  induction t generalizing c with
  | nil => simp at hp
  | node a l r ihl ihr =>
    rw [seek]
    split_ifs with ha
    · exact ⟨c, a, l, r, rfl, ha, rfl⟩
    by_cases hl : p ∈ ptrs l
    · obtain ⟨c', b, x, y, h, hb, hplug⟩ := ihl (c := ⟨.left, a, r⟩ :: c) hl
      exact ⟨c', b, x, y, by rw [h]; rfl, hb, hplug⟩
    · have hr : p ∈ ptrs r := ((mem_ptrs_node.mp hp).resolve_left (Ne.symm ha)).resolve_left hl
      obtain ⟨c', b, x, y, h, hb, hplug⟩ := ihr (c := ⟨.right, a, l⟩ :: c) hr
      exact ⟨c', b, x, y, by rw [seek_none hl, h]; rfl, hb, hplug⟩

lemma Slots.unique {start k' : ℕ} (h : Slots n start k) (h' : Slots n start k') (hk : k < SLOTS) : k' = k := by
  have hno : ∀ i, n (start + 32 * i) = blankNode → ¬ (n (start + 32 * i)).Taken := fun i hb => by
    rw [hb]
    exact not_taken_blank
  rcases lt_trichotomy k' k with hlt | rfl | hlt
  · exact (hno k' (h'.blank k' le_rfl (hlt.trans hk)) (h.taken k' hlt)).elim
  · rfl
  · exact (hno k (h.blank k le_rfl hk) (h'.taken k hlt)).elim

lemma insertFix_perm (hi : insertFix (descend size [] (paint .black t)) (node ⟨.red, e⟩ nil nil) = some t') :
    (vals t').Perm (e :: vals t) := by
  have hg := vals_plug (descend size [] (paint .black t)) nil
  rw [plug_descend, plug_nil, vals_paint, vals_nil, List.append_nil] at hg
  rw [insertFix_vals hi, vals_plug, hg]
  simp

namespace Holds

lemma root_ne_zero (h : Holds s v k t) (ht : t ≠ nil) : (s.vmms v).root ≠ 0 := by
  have hr : (s.vmms v).root = addr t := h.tree.root
  rw [hr]
  exact h.tree.addr_ne_zero (c := []) ht

lemma vmmMakeNode (h : Holds s v k t) (ht : t ≠ nil) (hk : k < SLOTS)
    (hf : (ptrs t).length + k < fuel ∨ vmmMakeNode fuel s v base size id ≠ .error .fuel) :
    match insertFix (descend size [] (paint .black t)) (node ⟨.red, newEntry (slotsOf s v) k base size id⟩ nil nil) with
    | some t' => ∃ s', vmmMakeNode fuel s v base size id = .ok (s.setTree v s') ∧ Holds (s.setTree v s') v (k + 1) t' ∧
        ∀ q, q ∉ ptrs t → q ≠ slotsOf s v + 32 * k → s'.nodes q = s.nodes q
    | none => vmmMakeNode fuel s v base size id = .error .fault := by
  have hf' : (ptrs t).length + k < fuel ∨ makeNode fuel (s.tree v) (slotsOf s v) base size id ≠ .error .fuel :=
    hf.imp_right (mt fun he => by rw [Memory.vmmMakeNode, he, error_bind])
  have hm := makeNode_insert h.tree ht h.taken h.slots hk hf'
  generalize insertFix _ _ = o at hm ⊢
  cases o with
  | some t' =>
    obtain ⟨s', hm, htree, htaken, hslots, hout⟩ := hm
    refine ⟨s', by rw [Memory.vmmMakeNode, hm]; rfl, ⟨?_, htaken, ?_⟩, hout⟩
    · have hs : (s.setTree v s').tree v = s' := by simp [VmmState.tree]
      rw [hs]
      exact htree
    · rw [VmmState.slotsOf_setTree]
      exact hslots
  | none =>
    have hm : makeNode fuel (s.tree v) (slotsOf s v) base size id = .error .fault := hm
    simp only [Memory.vmmMakeNode, hm, error_bind]

lemma load_base (h : Holds s v k t) (he : e ∈ vals t) : ∃ n, (s.tree v).load e.ptr = .ok n ∧ n.base = e.base := by
  obtain ⟨a, ha, rfl⟩ := List.mem_map.mp he
  obtain ⟨c, l, r, rfl⟩ := exists_path ha
  exact ⟨_, h.tree.load (d := .left), rfl⟩

lemma bestFit (h : Holds s v k t) (hf : (ptrs t).length < fuel ∨ bestFit fuel (s.tree v) length (s.vmms v).root 0 ≠ .error .fuel) :
    bestFit fuel (s.tree v) length (s.vmms v).root 0 = .ok (fitAddr (fit length [] t none)) := by
  have hr : (s.vmms v).root = addr t := h.tree.root
  rw [hr, ← show fitAddr none = 0 from rfl] at hf ⊢
  exact bestFit_ok (c := []) h.tree hf

lemma takeRange_none (h : Holds s v k t) (hfit : fit length [] t none = none)
    (hf : (ptrs t).length < fuel ∨ vmmTakeRange fuel s v length ≠ .error .fuel) : vmmTakeRange fuel s v length = .ok (none, s) := by
  by_cases hr : (s.vmms v).root = 0
  · rw [vmmTakeRange, if_pos hr]
    rfl
  · have hb := h.bestFit (hf.imp_right (mt fun he => by rw [vmmTakeRange, if_neg hr, he, error_bind]))
    rw [vmmTakeRange, if_neg hr, hb, hfit]
    rfl

lemma takeRange_eq (h : Holds s v k t) {c : RbPath} {a : Cell Entry} {l r : RbTree}
    (hfit : fit length [] t none = some (c, node a l r)) (hk : a.val.size > length → k < SLOTS)
    (hf : (ptrs t).length + k < fuel ∨ vmmTakeRange fuel s v length ≠ .error .fuel) :
    match splitOff (slotsOf s v) k length t a.val with
    | some t₁ => ∃ s₁, Holds (s.setTree v s₁) v (if a.val.size > length then k + 1 else k) t₁ ∧ a.val ∈ vals t₁ ∧
        (∀ q, q ∉ ptrs t → q ≠ slotsOf s v + 32 * k → s₁.nodes q = s.nodes q) ∧
        vmmTakeRange fuel s v length = (do
          let w ← deleteNode fuel ((s.setTree v s₁).tree s.kernelVmm) a.val.ptr
          return (some a.val.base, (s.setTree v s₁).setTree s.kernelVmm w))
    | none => vmmTakeRange fuel s v length = .error .fault := by
  have hplug : plug c (node a l r) = t := by
    rcases fit_mem hfit with hno | ⟨hp, -⟩
    · cases hno
    · exact hp
  have hp : Represents s.nodes (s.tree v) (plug c (node a l r)) := by
    rw [hplug]
    exact h.tree
  have ht : t ≠ nil := by
    rw [← hplug]
    exact plug_ne_nil (by simp)
  have ha : a.val ∈ vals t := by
    rw [← hplug, vals_plug]
    simp
  have hl : (s.tree v).load a.val.ptr = .ok (record .left a _ _ _) := hp.load (d := .left)
  have hz := hp.ptr_ne_zero (d := .left)
  have hb := h.bestFit (hf.imp (show _ → _ < fuel by omega) (mt fun he => by
    rw [vmmTakeRange, if_neg (h.root_ne_zero ht), he, error_bind]))
  rw [hfit, fitAddr, addr_node] at hb
  rw [splitOff]
  by_cases hgt : a.val.size > length
  · have heq : vmmTakeRange fuel s v length = (Memory.vmmMakeNode fuel s v (u32 (a.val.base + length)) (a.val.size - length) 0 >>=
        fun u => do
          let base := (← (u.tree v).load a.val.ptr).base
          let w ← deleteNode fuel (u.tree u.kernelVmm) a.val.ptr
          return (some base, u.setTree u.kernelVmm w)) := by
      rw [vmmTakeRange, if_neg (h.root_ne_zero ht), hb, ok_bind, if_neg hz, hl, ok_bind]
      exact if_pos hgt
    have hm := h.vmmMakeNode ht (hk hgt) (hf.imp_right (mt fun he => by rw [heq, he, error_bind]))
    rw [if_pos hgt, if_pos hgt]
    generalize hi : insertFix _ _ = o at hm ⊢
    cases o with
    | some t₁ =>
      obtain ⟨s₁, hm, h₁, hout⟩ := hm
      have ha₁ : a.val ∈ vals t₁ := (insertFix_perm hi).mem_iff.mpr (List.mem_cons_of_mem _ ha)
      obtain ⟨n, hn, hbase⟩ := h₁.load_base ha₁
      refine ⟨s₁, h₁, ha₁, hout, ?_⟩
      simp only [heq, hm, ok_bind, hn, hbase, VmmState.setTree_kernelVmm]
    | none =>
      have hm : Memory.vmmMakeNode fuel s v (u32 (a.val.base + length)) (a.val.size - length) 0 = .error .fault := hm
      rw [heq, hm, error_bind]
  · rw [if_neg hgt, if_neg hgt]
    obtain ⟨n, hn, hbase⟩ := h.load_base ha
    refine ⟨s.tree v, by rwa [VmmState.setTree_tree], ha, fun _ _ _ => rfl, ?_⟩
    rw [VmmState.setTree_tree, vmmTakeRange, if_neg (h.root_ne_zero ht), hb, ok_bind, if_neg hz, hl, ok_bind]
    refine (if_neg hgt).trans ?_
    simp only [pure_eq, ok_bind, hn, hbase]

end Holds

end WordOS.Memory
