import WordOS.Utils.RbDeleteViolations

/-! `delete_node` on represented trees, case by case. -/

namespace WordOS.Utils

open Machine BinaryTree Lib.Zipper Lib.ColoredTree

/-- The subtree at the rightmost node, which `delete_node` takes for the minimum. -/
def rightmostNode : RbTree → RbTree
  | nil => nil
  | node a l nil => node a l nil
  | node _ _ (node b x y) => rightmostNode (node b x y)

def rightPath : RbPath → RbTree → RbPath
  | c, node a l (node b x y) => rightPath (⟨.right, a, l⟩ :: c) (node b x y)
  | c, _ => c

lemma plug_rightPath (c : RbPath) (t : RbTree) : plug (rightPath c t) (rightmostNode t) = plug c t := by
  induction t using rightmostNode.induct generalizing c with
  | case1 => rfl
  | case2 a l => rfl
  | case3 a l b x y ih => exact ih _

lemma rightPath_eq (c : RbPath) (t : RbTree) :
    ∃ rs, rightPath c t = rs ++ c ∧ ∀ f ∈ rs, f.side = .right := by
  induction t using rightmostNode.induct generalizing c with
  | case1 => exact ⟨[], rfl, by simp⟩
  | case2 a l => exact ⟨[], rfl, by simp⟩
  | case3 a l b x y ih =>
    obtain ⟨rs, he, hs⟩ := ih (⟨.right, a, l⟩ :: c)
    refine ⟨rs ++ [⟨.right, a, l⟩], by rw [rightPath, he, List.append_assoc]; rfl, ?_⟩
    simpa [or_imp, forall_and] using hs

lemma exists_rightmostNode {t : RbTree} (h : t ≠ nil) : ∃ b x, rightmostNode t = node b x nil := by
  induction t using rightmostNode.induct with
  | case1 => exact (h rfl).elim
  | case2 a l => exact ⟨a, l, rfl⟩
  | case3 a l b x y ih => simpa only [rightmostNode] using ih (by simp)

lemma plug_append (p c : RbPath) (t : RbTree) : plug (p ++ c) t = plug c (plug p t) := by
  induction p generalizing t with
  | nil => rfl
  | cons f p ih => exact ih _

/-- Whether `alloc_node_obj` passes over a slot. -/
def RbNode.Taken (n : RbNode) : Prop := n.flags &&& 1 ≠ 0

instance (n : RbNode) : Decidable n.Taken := inferInstanceAs (Decidable (_ ≠ _))

lemma freeNodeObj_ok {s : RbState} {p : Ptr} (hp : p ≠ 0) : ∃ s', freeNodeObj s p = .ok s' ∧
    s'.root = s.root ∧ (∀ q, q ≠ p → s'.nodes q = s.nodes q) ∧
    ∀ q, (s.nodes q).Taken → (s'.nodes q).Taken := by
  by_cases hf : (s.nodes p).flags &&& 2 = 0
  · exact ⟨s, by simp [freeNodeObj, RbState.load, hp, hf], rfl, fun _ _ => rfl, fun _ => id⟩
  · refine ⟨s.put p fun n => { n with flags := n.flags &&& (2 ^ 32 - 1 - 2), base := 0 },
      by simp only [freeNodeObj, RbState.load, RbState.modify, if_neg hp, ok_bind, if_neg hf],
      rfl, fun q hq => put_nodes_ne hq, ?_⟩
    intro q ht
    by_cases hq : q = p
    · subst hq
      rw [put_nodes_self, RbNode.Taken, Nat.and_assoc]
      exact ht
    · rwa [put_nodes_ne hq]

lemma reroot_freeNodeObj {s s' : RbState} {p r : Ptr} (h : freeNodeObj s p = .ok s') :
    freeNodeObj (s.reroot r) p = .ok (s'.reroot r) := by
  rw [freeNodeObj, bind_eq_ok] at h
  obtain ⟨n, hn, h⟩ := h
  rw [freeNodeObj, reroot_load, hn, ok_bind]
  split_ifs at h ⊢
  · obtain rfl := Except.ok.inj h
    rfl
  · exact reroot_modify h

namespace Represents

variable {rest : Ptr → RbNode} {s s' : RbState} {c : RbPath} {t : RbTree} {f : Frame (Cell Entry)}

lemma outside (h : Represents rest s t) (hr : s'.root = s.root) (hn : ∀ q ∈ ptrs t, s'.nodes q = s.nodes q) :
    Represents s'.nodes s' t :=
  ⟨hr.trans h.root, h.rep.congr hn, h.distinct, h.nonnull, fun _ _ => rfl⟩

lemma cutOff (h : Represents rest s (plug (f :: c) t)) :
    Represents (s.put f.value.val.ptr (·.setChild f.side 0)).nodes
      (s.put f.value.val.ptr (·.setChild f.side 0)) (plug (f :: c) nil) := by
  have hP : f.value.val.ptr ≠ 0 := h.ptr_ne_zero
  have hz := h.ne_zero
  rw [List.mem_append, not_or] at hz
  have hd := (List.nodup_append.mp h.nodup).1
  have hpath : RepPath (s.put f.value.val.ptr (·.setChild f.side 0)).nodes s.root (f :: c) 0 :=
    h.focus.1.rehole (by rw [parentAddr, if_neg hP]) (fun _ => put_nodes_self ..)
    (fun q _ hq => put_nodes_ne hq) hd hz.1
  obtain ⟨hr, hrep⟩ := (rep_plug (f :: c) nil).mpr ⟨hpath, trivial⟩
  have hperm : (ptrs (plug (f :: c) nil)).Perm (pathPtrs (f :: c)) := by simpa using ptrs_plug (f :: c) nil
  exact ⟨hr, hrep, hperm.nodup_iff.mpr hd, fun hm => hz.1 (hperm.mem_iff.mp hm), fun _ _ => rfl⟩

lemma detach (h : Represents rest s (plug (f :: c) t)) :
    ∃ s', s.modify f.value.val.ptr (·.setChild f.side 0) = .ok s' ∧
      Represents s'.nodes s' (plug (f :: c) nil) ∧
      (∀ q, q ≠ f.value.val.ptr → s'.nodes q = s.nodes q) ∧ ∀ q, (s'.nodes q).flags = (s.nodes q).flags := by
  have hP : f.value.val.ptr ≠ 0 := h.ptr_ne_zero
  refine ⟨_, by rw [RbState.modify, if_neg hP], h.cutOff, fun q hq => put_nodes_ne hq, ?_⟩
  intro q
  by_cases hq : q = f.value.val.ptr
  · subst hq
    rw [put_nodes_self]
    cases f.side <;> rfl
  · rw [put_nodes_ne hq]

lemma flags_eq (h : Represents rest s t) {e : Entry} (he : e ∈ vals t) : (s.nodes e.ptr).flags = e.flags := by
  obtain ⟨b, hb, rfl⟩ := List.mem_map.mp he
  obtain ⟨c, l, r, rfl⟩ := exists_path hb
  rw [h.nodes_eq (d := .left) (a := b)]
  rfl

lemma taken_iff (h : Represents rest s t) :
    (∀ q ∈ ptrs t, (s.nodes q).Taken) ↔ ∀ e ∈ vals t, e.flags &&& 1 ≠ 0 := by
  simp only [ptrs, List.forall_mem_map]
  refine forall₂_congr fun e he => ?_
  rw [RbNode.Taken, h.flags_eq he]

lemma addr_plug_mem (f : Frame (Cell Entry)) (c : RbPath) (t : RbTree) :
    addr (plug (f :: c) t) ∈ pathPtrs (f :: c) := by
  induction c generalizing f t with
  | nil => simp [Frame.plug, pathPtrs]
  | cons g c ih => exact List.mem_cons_of_mem _ (List.mem_append_right _ (ih g (f.plug t)))

lemma root_ne (h : Represents rest s (plug (f :: c) t)) (ht : t ≠ nil) : addr t ≠ s.root := by
  intro he
  refine (List.nodup_append.mp h.nodup).2.2 _ (addr_plug_mem f c t) _ (addr_mem ht) ?_
  rw [he, h.root]

end Represents

/-- What `delete_node` makes of the tree `t`; nothing outside it is written, and no slot in
use becomes free for `alloc_node_obj`. -/
def Leaves (s : RbState) (t : RbTree) (e : Exec RbState) : Option RbTree → Prop
  | some t' => ∃ s', e = .ok s' ∧ Represents s'.nodes s' t' ∧ (∀ q, q ∉ ptrs t → s'.nodes q = s.nodes q) ∧
      ((∀ q ∈ ptrs t, (s.nodes q).Taken) → ∀ q ∈ ptrs t, (s'.nodes q).Taken)
  | none => e = .error .fault

/-- `Leaves` for a run that is given another root: the root pointer is written if `lifts`. -/
def LeavesUnder (s : RbState) (root : Ptr) (lifts : Prop) [Decidable lifts] (t : RbTree) (e : Exec RbState) :
    Option RbTree → Prop
  | some t' => ∃ s', e = .ok (s'.reroot (if lifts then s'.root else root)) ∧ Represents s'.nodes s' t' ∧
      (¬ lifts → addr t' = addr t) ∧ (∀ q, q ∉ ptrs t → s'.nodes q = s.nodes q) ∧
      ((∀ q ∈ ptrs t, (s.nodes q).Taken) → ∀ q ∈ ptrs t, (s'.nodes q).Taken)
  | none => e = .error .fault

/-- Given the tree's own root, the root pointer is right in the end. -/
lemma LeavesUnder.leaves {s : RbState} {lifts : Prop} [Decidable lifts] {t : RbTree} {e : Exec RbState} {o : Option RbTree}
    (h : LeavesUnder s s.root lifts t e o) (hr : s.root = addr t) : Leaves s t e o := by
  cases o with
  | none => exact h
  | some t' =>
    obtain ⟨s', he, h', ha, hn, ht⟩ := h
    refine ⟨s', he.trans ?_, h', hn, ht⟩
    split_ifs with hl
    · rfl
    · rw [hr, ← ha hl, ← h'.root, reroot_self]

namespace Represents

variable {rest : Ptr → RbNode} {s s' : RbState} {c : RbPath} {t : RbTree} {f : Frame (Cell Entry)}
  {a : Cell Entry} {fuel : ℕ} {root : Ptr}

lemma leavesUnder {s₁ s₂ : RbState} {t₁ t₂ : RbTree} {e : Exec RbState} {lifts : Prop} [Decidable lifts]
    (h : Represents rest s t) (h₁ : Represents rest s₁ t₁) (hv : vals t₁ = vals t)
    (he : e = .ok (s₂.reroot (if lifts then s₂.root else root))) (h₂ : Represents s₂.nodes s₂ t₂)
    (ha : ¬ lifts → addr t₂ = addr t)
    (hn : ∀ q, q ∉ ptrs t₁ → s₂.nodes q = s₁.nodes q)
    (ht : (∀ q ∈ ptrs t₁, (s₁.nodes q).Taken) → ∀ q ∈ ptrs t₁, (s₂.nodes q).Taken) :
    LeavesUnder s root lifts t e (some t₂) := by
  have hp : ptrs t₁ = ptrs t := by rw [ptrs, hv, ptrs]
  refine ⟨s₂, he, h₂, ha, ?_, ?_⟩
  · intro q hq
    rw [hn q (hp ▸ hq), h₁.rest q (hp ▸ hq), h.rest q hq]
  · rw [h.taken_iff, ← hp, ← hv, ← h₁.taken_iff]
    exact ht

lemma cut (h : Represents rest s (plug c t)) {q : Ptr} (hq : q ∈ ptrs t) : q ∉ ptrs (plug c nil) := by
  intro hm
  have hc : q ∈ pathPtrs c := by simpa using (ptrs_plug c nil).mem_iff.mp hm
  exact (List.nodup_append.mp h.nodup).2.2 _ hc _ hq rfl

lemma deleteViolations_below {e : Side} {x y : RbTree} (h : Represents rest s (plug (f :: c) (fork e a x y)))
    (hf : climb (f :: c) < fuel ∨ Utils.deleteViolations fuel (s.reroot root) a.val.ptr ≠ .error .fuel) :
    (deleteFix (f :: c) a.color = none ∧ Utils.deleteViolations fuel (s.reroot root) a.val.ptr = .error .fault) ∨
      ∃ k f' c' s', deleteFix (f :: c) a.color = some (k, f' :: c') ∧ Keeps (f :: c) (f' :: c') ∧
        f'.side = f.side ∧ f'.value.val = f.value.val ∧
        Utils.deleteViolations fuel (s.reroot root) a.val.ptr =
          .ok (s'.reroot (if a.color ≠ .red ∧ LiftsRoot (f :: c) then s'.root else root)) ∧
        Represents rest s' (plug (f' :: c') (fork e (a.paint k) x y)) := by
  have hv := h.deleteViolations_reroot hf
  cases hq : deleteFix (f :: c) a.color with
  | none =>
    rw [hq] at hv
    exact .inl ⟨rfl, hv⟩
  | some q =>
    rw [hq] at hv
    obtain ⟨s', e', h'⟩ := hv
    have hk := (deleteFix_rebalances hq).keeps
    obtain ⟨k, _ | ⟨f', c'⟩⟩ := q
    · exact (List.cons_ne_nil _ _ (hk.eq_nil rfl)).elim
    · have hh := hk.head
      simp only [ancestors_cons, List.head?_cons, Option.some.injEq, Prod.mk.injEq] at hh
      exact .inr ⟨k, f', c', s', rfl, hk, hh.1, hh.2, e', h'⟩

lemma deleteNode_leaf_reroot (h : Represents rest s (plug (f :: c) (node a nil nil)))
    (hs : a.val.size > f.value.val.size ↔ f.side = .right) (hroot : a.val.ptr ≠ root)
    (hf : climb (f :: c) < fuel ∨ deleteNode fuel (s.reroot root) a.val.ptr ≠ .error .fuel) :
    LeavesUnder s root (a.color ≠ .red ∧ LiftsRoot (f :: c)) (plug (f :: c) (node a nil nil))
      (deleteNode fuel (s.reroot root) a.val.ptr) ((deleteFix (f :: c) a.color).map fun q => plug q.2 nil) := by
  have hl : s.load a.val.ptr = _ := h.load (d := .left)
  simp only [Utils.deleteNode, reroot_load, reroot_root, hl, ok_bind, record, addr_nil, hroot, false_and, if_false, pure_eq,
    and_self, if_true, parentAddr] at hf ⊢
  have hf' : climb (f :: c) < fuel ∨ Utils.deleteViolations fuel (s.reroot root) a.val.ptr ≠ .error .fuel :=
    hf.imp_right (mt fun he => by rw [he, error_bind])
  rcases deleteViolations_below (e := .left) h hf' with
    ⟨hq, he⟩ | ⟨k, f', c', s₁, hq, hk, hside, hval, e₁, h₁⟩
  · rw [hq, he]
    rfl
  have ha₁ : s₁.load a.val.ptr = _ := h₁.load (a := a.paint k)
  have hf₁ : s₁.load f'.value.val.ptr = _ := Represents.load (c := c') (d := f'.side) (a := f'.value) h₁
  obtain ⟨s₂, e₂, h₂, hn₂, hfl₂⟩ := h₁.detach
  obtain ⟨s₃, e₃, hr₃, hn₃, ht₃⟩ := freeNodeObj_ok (s := s₂) (p := a.val.ptr) h₁.ptr_ne_zero
  have hr₁ : s₁.root = s₃.root := (hr₃.trans (modify_root e₂)).symm
  rw [hq, e₁, ok_bind, reroot_load, ha₁, ok_bind, ← hval, reroot_load, hf₁, ok_bind, record_size, record_size, hr₁]
  have hcut := h₁.cut (mem_ptrs_node.mpr (.inl rfl))
  refine h.leavesUnder h₁ (hk.vals_plug rfl) ?_ (h₂.outside hr₃ fun q hq => hn₃ q (by rintro rfl; exact hcut hq)) ?_ ?_ ?_
  · rw [← hside] at hs
    rw [hval]
    by_cases hc : a.val.size > f.value.val.size
    · rw [Cell.paint_val, if_pos hc, ← hs.mp hc, ← hval, reroot_modify e₂, ok_bind, reroot_freeNodeObj e₃]
    · have hd : f'.side = .left := by
        cases hd : f'.side
        · rfl
        · exact (hc (hs.mpr hd)).elim
      rw [Cell.paint_val, if_neg hc, ← hd, ← hval, reroot_modify e₂, ok_bind, reroot_freeNodeObj e₃]
  · intro hno
    rw [(deleteFix_rebalances hq).addr_plug (fun hk hc => hno ⟨hk, hc⟩) (u := nil) rfl]
    exact addr_plug_congr (List.cons_ne_nil _ _) _ _
  · intro q hq
    rw [hn₃ q, hn₂ q]
    · rintro rfl
      exact hq ((ptrs_plug ..).mem_iff.mpr (by simp [pathPtrs]))
    · rintro rfl
      exact hq ((ptrs_plug ..).mem_iff.mpr (List.mem_append_right _ (mem_ptrs_node.mpr (.inl rfl))))
  · intro ht q hq
    exact ht₃ q (by rw [RbNode.Taken, hfl₂]; exact ht q hq)

lemma deleteNode_leaf (h : Represents rest s (plug (f :: c) (node a nil nil)))
    (hs : a.val.size > f.value.val.size ↔ f.side = .right)
    (hf : climb (f :: c) < fuel ∨ deleteNode fuel s a.val.ptr ≠ .error .fuel) :
    Leaves s (plug (f :: c) (node a nil nil)) (deleteNode fuel s a.val.ptr)
      ((deleteFix (f :: c) a.color).map fun q => plug q.2 nil) := by
  have hl := h.deleteNode_leaf_reroot hs (h.root_ne (by simp)) (show _ ∨ deleteNode fuel (s.reroot s.root) _ ≠ _ by rwa [reroot_self])
  rw [reroot_self] at hl
  exact hl.leaves h.root

end Represents

end WordOS.Utils
