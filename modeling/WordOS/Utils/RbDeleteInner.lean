import WordOS.Utils.RbDelete

/-! `delete_node` of a node with children: an entry moves up into the node, and another node goes. -/

namespace WordOS.Utils

open Machine BinaryTree Lib.Zipper Lib.ColoredTree

/-- The entry of a node after it took over the range of another. -/
def Entry.copy (src : Entry) (e : Entry) : Entry := { e with base := src.base, size := src.size, flags := src.flags }

@[simp] lemma reroot_rightmost (fuel : ℕ) (s : RbState) (r p : Ptr) : rightmost fuel (s.reroot r) p = rightmost fuel s p := by
  induction fuel generalizing p with
  | zero => rfl
  | succ fuel ih => simp only [rightmost, reroot_load, ih]

lemma pathPtrs_append (p c : RbPath) : pathPtrs (p ++ c) = pathPtrs p ++ pathPtrs c := by
  induction p with
  | nil => rfl
  | cons f p ih => simp [pathPtrs, ih]

/-- Where an ancestor on the left side, below which only right steps follow, is found again. -/
lemma Keeps.split {rs c c' : RbPath} {g : Frame (Cell Entry)} (h : Keeps (rs ++ g :: c) c')
    (hr : ∀ f ∈ rs, f.side = .right) (hd : (pathPtrs c').Nodup) :
    ∃ pre fx post, c' = pre ++ fx :: post ∧ fx.side = g.side ∧ fx.value.val = g.value.val ∧
      ∀ f p, pre = f :: p → f.side = .right := by
  have hm : (g.side, g.value.val) ∈ ancestors c' := h.sublist.subset (by simp [ancestors])
  obtain ⟨fx, hfx, he⟩ := List.mem_map.mp hm
  obtain ⟨pre, post, rfl⟩ := List.append_of_mem hfx
  obtain ⟨hs, hv⟩ := Prod.mk.injEq .. ▸ he
  refine ⟨pre, fx, post, rfl, hs, hv, ?_⟩
  rintro f p rfl
  have hh := h.head
  rcases rs with _ | ⟨f₀, rs⟩
  · simp only [List.nil_append, List.cons_append, ancestors_cons, List.head?_cons, Option.some.injEq,
      Prod.mk.injEq] at hh
    have hx : fx.value.val.ptr ∈ pathPtrs (p ++ fx :: post) := by simp [pathPtrs_append, pathPtrs]
    have hn := List.nodup_cons.mp (show (f.value.val.ptr :: (ptrs f.sibling ++ pathPtrs (p ++ fx :: post))).Nodup from hd)
    exact (hn.1 (by rw [hh.2, ← hv]; exact List.mem_append_right _ hx)).elim
  · simp only [List.cons_append, ancestors_cons, List.head?_cons, Option.some.injEq, Prod.mk.injEq] at hh
    rw [hh.1]
    exact hr f₀ (by simp)

namespace Represents

variable {rest : Ptr → RbNode} {s s' : RbState} {c : RbPath} {t : RbTree} {a b : Cell Entry} {fuel : ℕ}
  {root : Ptr}

lemma rightmost (h : Represents rest s (plug c t)) (ht : t ≠ nil)
    (hf : (ptrs t).length < fuel ∨ rightmost fuel s (addr t) ≠ .error .fuel) :
    rightmost fuel s (addr t) = .ok (addr (rightmostNode t)) := by
  induction fuel generalizing c t with
  | zero => simp [Utils.rightmost] at hf
  | succ fuel ih =>
    have hz := h.addr_ne_zero ht
    rcases t with _ | ⟨a, l, _ | ⟨b, x, y⟩⟩
    · exact (ht rfl).elim
    · have hl : s.load a.val.ptr = _ := h.load (d := .left)
      rw [addr_node] at hz
      simp [Utils.rightmost, hz, hl, record, rightmostNode]
    · have hl : s.load a.val.ptr = _ := h.load (d := .left)
      have h' : Represents rest s (plug (⟨.right, a, l⟩ :: c) (node b x y)) := h
      have hzb := h'.addr_ne_zero (by simp)
      rw [addr_node] at hz hzb
      have hn : (ptrs (node a l (node b x y))).length = (ptrs l).length + (ptrs (node b x y)).length + 1 := by
        simp [ptrs]
        omega
      simp only [Utils.rightmost, addr_node, if_neg hz, hl, ok_bind, record, if_neg hzb, rightmostNode] at hf ⊢
      exact ih h' (by simp) (hf.imp_left (by omega))

lemma putAbove {p c : RbPath} {f : Frame (Cell Entry)} {a : Cell Entry} {g : RbNode → RbNode}
    (h : Represents rest s (plug (p ++ f :: c) t)) (ha : a.val.ptr = f.value.val.ptr)
    (hg : ∀ x y z, g (record f.side f.value x y z) = record f.side a x y z) :
    Represents rest (s.put f.value.val.ptr g) (plug (p ++ ⟨f.side, a, f.sibling⟩ :: c) t) := by
  rw [plug_append] at h ⊢
  exact put (c := c) (d := f.side) (a := f.value) h ha hg

lemma root_eq_iff {p c : RbPath} {f : Frame (Cell Entry)} (h : Represents rest s (plug (p ++ f :: c) t)) :
    f.value.val.ptr = s.root ↔ c = [] := by
  have h' : Represents rest s (plug c (f.plug (plug p t))) := by rwa [plug_append] at h
  cases c with
  | nil => simp [h'.root, Frame.plug]
  | cons g c =>
    have := h'.root_ne (t := f.plug (plug p t)) fork_ne_nil
    simpa [Frame.plug] using this

lemma addr_plug_split {p c : RbPath} {f : Frame (Cell Entry)} {b : Cell Entry} (hb : b.val.ptr = f.value.val.ptr) (t : RbTree) :
    addr (plug (p ++ ⟨f.side, b, f.sibling⟩ :: c) t) = addr (plug (p ++ f :: c) t) := by
  rw [plug_append, plug_append, plug_cons, plug_cons]
  exact addr_plug_of_addr c (by simp [Frame.plug, hb])

lemma settle {p c : RbPath} {f : Frame (Cell Entry)} {q : Ptr} (h : Represents rest s (plug (p ++ f :: c) t))
    (hq : q ∉ ptrs (plug (p ++ f :: c) t)) (hz : q ≠ 0) (root : Ptr) :
    ∃ s' k, settle (s.reroot root) f.value.val.ptr q = .ok (s'.reroot root) ∧ (f.value.val.ptr = root → k = .black) ∧
      (f.value.val.ptr ≠ root → k = f.value.color) ∧ s'.root = s.root ∧
      Represents s'.nodes s' (plug (p ++ ⟨f.side, f.value.paint k, f.sibling⟩ :: c) t) ∧
      (∀ r, r ≠ f.value.val.ptr → r ≠ q → s'.nodes r = s.nodes r) ∧
      ∀ r, (s.nodes r).Taken → (s'.nodes r).Taken := by
  have hptrs : ∀ k, ptrs (plug (p ++ ⟨f.side, f.value.paint k, f.sibling⟩ :: c) t) = ptrs (plug (p ++ f :: c) t) := by
    intro k
    simp only [ptrs, plug_append, plug_cons, Frame.plug]
    rw [vals_plug_congr c (vals_fork_congr (Cell.paint_val ..) rfl rfl)]
  by_cases hroot : f.value.val.ptr = root
  · have h₁ : Represents rest (s.put f.value.val.ptr (·.setColor .black))
        (plug (p ++ ⟨f.side, f.value.paint .black, f.sibling⟩ :: c) t) :=
      h.putAbove rfl fun x y z => record_setColor ..
    obtain ⟨s₂, e₂, hr₂, hn₂, ht₂⟩ := freeNodeObj_ok (s := s.put f.value.val.ptr (·.setColor .black)) hz
    have hP : f.value.val.ptr ≠ 0 := by
      rw [plug_append] at h
      exact Represents.ptr_ne_zero (c := c) (d := f.side) (a := f.value) h
    refine ⟨s₂, .black, ?_, fun _ => rfl, fun h => (h hroot).elim, hr₂, h₁.outside hr₂ ?_, ?_, ?_⟩
    · rw [Utils.settle, reroot_root, if_pos hroot, RbState.modify, if_neg hP, ok_bind, reroot_put]
      exact reroot_freeNodeObj e₂
    · intro r hr
      exact hn₂ r (by rintro rfl; exact hq (hptrs _ ▸ hr))
    · intro r hr hrq
      rw [hn₂ r hrq, put_nodes_ne hr]
    · intro r hr
      refine ht₂ r ?_
      by_cases hrf : r = f.value.val.ptr
      · subst hrf
        rwa [put_nodes_self]
      · rwa [put_nodes_ne hrf]
  · obtain ⟨s₂, e₂, hr₂, hn₂, ht₂⟩ := freeNodeObj_ok (s := s) hz
    refine ⟨s₂, f.value.color, ?_, fun h => (hroot h).elim, fun _ => rfl, hr₂, ?_, fun r _ hr => hn₂ r hr, ht₂⟩
    · rw [Utils.settle, reroot_root, if_neg hroot]
      exact reroot_freeNodeObj e₂
    · exact h.outside hr₂ fun r hr => hn₂ r (by rintro rfl; exact hq hr)

lemma cutMin {p c : RbPath} {f : Frame (Cell Entry)} {x : RbTree}
    (h : Represents rest s (plug (p ++ f :: c) (node b x nil))) (hs : f.side = .left)
    (hr : ∀ g p', p = g :: p' → g.side = .right) :
    ∃ s' m n, s.load b.val.ptr = .ok m ∧ s.load f.value.val.ptr = .ok n ∧
      (if b.val.ptr = n.left then s.modify f.value.val.ptr (·.setChild .left 0)
        else s.modify m.parent (·.setChild .right 0)) = .ok s' ∧ s'.root = s.root ∧
      Represents s'.nodes s' (plug (p ++ f :: c) nil) ∧
      (∀ q, q ∉ ptrs (plug (p ++ f :: c) (node b x nil)) → s'.nodes q = s.nodes q) ∧
      ∀ q, (s'.nodes q).flags = (s.nodes q).flags := by
  have hb : s.load b.val.ptr = _ := h.load (d := .left)
  have h' : Represents rest s (plug c (fork f.side f.value (plug p (node b x nil)) f.sibling)) := by
    rwa [plug_append] at h
  have hf : s.load f.value.val.ptr = _ := h'.load
  have hmem : ∀ q, q ∉ ptrs (plug (p ++ f :: c) (node b x nil)) → q ∉ pathPtrs (p ++ f :: c) := by
    intro q hq hm
    exact hq ((ptrs_plug ..).mem_iff.mpr (List.mem_append_left _ hm))
  rcases p with _ | ⟨g, p⟩
  · obtain ⟨s', e, h₂, hn, hfl⟩ := detach (f := f) h
    refine ⟨s', _, _, hb, hf, ?_, modify_root e, h₂, fun q hq => hn q ?_, hfl⟩
    · rw [hs] at e
      simpa [hs, record] using e
    · rintro rfl
      exact hmem _ hq (by simp [pathPtrs])
  · obtain ⟨s', e, h₂, hn, hfl⟩ := detach (f := g) (c := p ++ f :: c) h
    have hne : b.val.ptr ≠ addr (plug (g :: p) (node b x nil)) := by
      intro he
      have hg := addr_plug_mem g p (node b x nil)
      rw [← he] at hg
      refine (List.nodup_append.mp h.nodup).2.2 b.val.ptr ?_ _ (mem_ptrs_node.mpr (.inl rfl)) rfl
      rw [pathPtrs_append]
      exact List.mem_append_left _ hg
    refine ⟨s', _, _, hb, hf, ?_, modify_root e, h₂, fun q hq => hn q ?_, hfl⟩
    · rw [hr g p rfl] at e
      rw [hs]
      exact (if_neg hne).trans e
    · rintro rfl
      exact hmem _ hq (by simp [pathPtrs])

lemma unlinkMin {p c : RbPath} {f : Frame (Cell Entry)} {x : RbTree}
    (h : Represents rest s (plug (p ++ f :: c) (node b x nil))) (hs : f.side = .left)
    (hr : ∀ g p', p = g :: p' → g.side = .right) (root : Ptr) :
    ∃ s' k, unlinkMin (s.reroot root) f.value.val.ptr b.val.ptr = .ok (s'.reroot root) ∧ (f.value.val.ptr = root → k = .black) ∧
      (f.value.val.ptr ≠ root → k = f.value.color) ∧ s'.root = s.root ∧
      Represents s'.nodes s' (plug (p ++ ⟨.left, ⟨k, b.val.copy f.value.val⟩, f.sibling⟩ :: c) nil) ∧
      (∀ q, q ∉ ptrs (plug (p ++ f :: c) (node b x nil)) → s'.nodes q = s.nodes q) ∧
      ((∀ q ∈ ptrs (plug (p ++ f :: c) (node b x nil)), (s.nodes q).Taken) →
        ∀ q ∈ ptrs (plug (p ++ f :: c) (node b x nil)), (s'.nodes q).Taken) := by
  have hb : s.load b.val.ptr = _ := h.load (d := .left)
  set m := record .left b (addr x) (addr nil) (parentAddr (p ++ f :: c)) with hm
  set f' : Frame (Cell Entry) := ⟨f.side, ⟨f.value.color, b.val.copy f.value.val⟩, f.sibling⟩ with hf'
  have hP : f.value.val.ptr ≠ 0 := by
    rw [plug_append] at h
    exact Represents.ptr_ne_zero (c := c) (d := f.side) (a := f.value) h
  have hmemb : b.val.ptr ∈ ptrs (plug (p ++ f :: c) (node b x nil)) :=
    (ptrs_plug ..).mem_iff.mpr (List.mem_append_right _ (mem_ptrs_node.mpr (.inl rfl)))
  have hmemf : f.value.val.ptr ∈ ptrs (plug (p ++ f :: c) (node b x nil)) :=
    (ptrs_plug ..).mem_iff.mpr (List.mem_append_left _ (by simp [pathPtrs_append, pathPtrs]))
  set s₁ := s.put f.value.val.ptr (m.copy ·) with hs₁
  have h₁ : Represents rest s₁ (plug (p ++ f' :: c) (node b x nil)) :=
    h.putAbove (a := ⟨f.value.color, b.val.copy f.value.val⟩) rfl fun _ _ _ => by cases f.side <;> rfl
  obtain ⟨s₂, m₂, n₂, e₂, e₃, e₄, hr₂, h₂, hn₂, hfl₂⟩ := h₁.cutMin hs hr
  have hcut := h₁.cut (mem_ptrs_node.mpr (.inl rfl))
  obtain ⟨s₃, k, e₅, hk, hk', hr₃, h₃, hn₃, ht₃⟩ := h₂.settle hcut (h.ptr_ne_zero (d := .left) (a := b)) root
  have hmem : ∀ q, q ∈ ptrs (plug (p ++ f' :: c) (node b x nil)) ↔ q ∈ ptrs (plug (p ++ f :: c) (node b x nil)) := by
    intro q
    rw [(ptrs_plug ..).mem_iff, (ptrs_plug (p ++ f :: c) _).mem_iff]
    simp [pathPtrs_append, pathPtrs, hf', Entry.copy]
  have e₁ : s.modify f.value.val.ptr (m.copy ·) = .ok s₁ := by rw [RbState.modify, if_neg hP]
  refine ⟨s₃, k, ?_, hk, hk', hr₃.trans hr₂, by rw [hs] at h₃; exact h₃, ?_, ?_⟩
  · simp only [Utils.unlinkMin, reroot_load, hb, ok_bind, reroot_modify e₁, e₂]
    rw [show s₁.load f.value.val.ptr = .ok n₂ from e₃, ok_bind]
    rw [show f'.value.val.ptr = f.value.val.ptr from rfl] at e₄
    split_ifs at e₄ ⊢ with hc
    all_goals
      rw [reroot_modify e₄, ok_bind]
      exact e₅
  · intro q hq
    rw [hn₃ q (by rintro rfl; exact hq hmemf) (by rintro rfl; exact hq hmemb), hn₂ q (mt (hmem q).mp hq)]
    exact put_nodes_ne (by rintro rfl; exact hq hmemf)
  · intro ht q hq
    refine ht₃ q ?_
    rw [RbNode.Taken, hfl₂]
    by_cases hqf : q = f.value.val.ptr
    · subst hqf
      have := ht _ hmemb
      rw [h.nodes_eq (d := .left) (a := b)] at this
      rw [hs₁, put_nodes_self]
      exact this
    · rw [hs₁, put_nodes_ne hqf]
      exact ht q hq

/-- `delete_node` of a node with two children: its in-order predecessor goes, with whatever
is below it, after its range has moved up. -/
lemma deleteNode_both_reroot {l r x : RbTree} (h : Represents rest s (plug c (node a l r))) (hl : l ≠ nil) (hr : r ≠ nil)
    (hb : rightmostNode l = node b x nil)
    (hf : 2 * (ptrs (plug c (node a l r))).length < fuel ∨ deleteNode fuel (s.reroot root) a.val.ptr ≠ .error .fuel) :
    (deleteFix (rightPath (⟨.left, a, r⟩ :: c) l) b.color = none ∧ deleteNode fuel (s.reroot root) a.val.ptr = .error .fault) ∨
      ∃ k p f c' k', deleteFix (rightPath (⟨.left, a, r⟩ :: c) l) b.color = some (k, p ++ f :: c') ∧
        Keeps (rightPath (⟨.left, a, r⟩ :: c) l) (p ++ f :: c') ∧ f.side = .left ∧ f.value.val = a.val ∧
        (a.val.ptr = addr (plug (p ++ f :: c') nil) ↔ c' = []) ∧
        (a.val.ptr = (if b.color ≠ .red ∧ LiftsRoot (rightPath (⟨.left, a, r⟩ :: c) l) then addr (plug (p ++ f :: c') nil)
          else root) → k' = .black) ∧
        (a.val.ptr ≠ (if b.color ≠ .red ∧ LiftsRoot (rightPath (⟨.left, a, r⟩ :: c) l) then addr (plug (p ++ f :: c') nil)
          else root) → k' = f.value.color) ∧
        LeavesUnder s root (b.color ≠ .red ∧ LiftsRoot (rightPath (⟨.left, a, r⟩ :: c) l)) (plug c (node a l r))
          (deleteNode fuel (s.reroot root) a.val.ptr)
          (some (plug (p ++ ⟨.left, ⟨k', b.val.copy a.val⟩, f.sibling⟩ :: c') nil)) := by
  have ha : s.load a.val.ptr = _ := h.load (d := .left)
  have hla : addr l ≠ 0 := Represents.addr_ne_zero (c := ⟨.left, a, r⟩ :: c) h hl
  have hra : addr r ≠ 0 := Represents.addr_ne_zero (c := ⟨.right, a, l⟩ :: c) h hr
  have hw := plug_rightPath (⟨.left, a, r⟩ :: c) l
  rw [hb] at hw
  obtain ⟨rs, hrs, hside⟩ := rightPath_eq (⟨.left, a, r⟩ :: c) l
  set w := rightPath (⟨.left, a, r⟩ :: c) l with hwd
  have h' : Represents rest s (plug w (node b x nil)) := by rw [hw]; exact h
  have hlen₁ : (ptrs l).length ≤ (ptrs (plug c (node a l r))).length := by
    have := (ptrs_plug c (node a l r)).length_eq
    simp only [ptrs, vals_node, List.length_map, List.length_append, List.length_cons] at this ⊢
    omega
  have hlen₂ : climb w ≤ 2 * (ptrs (plug c (node a l r))).length := by
    have := (ptrs_plug w (node b x nil)).length_eq
    rw [hw, plug_cons, List.length_append] at this
    exact (climb_le w).trans (Nat.mul_le_mul_left 2 (by rw [show plug c (node a l r) = plug c (Frame.plug ⟨.left, a, r⟩ l) from rfl]; omega))
  simp only [Utils.deleteNode, reroot_load, ha, ok_bind, record, hla, hra, and_false, if_false, pure_eq, ne_eq,
    not_false_eq_true, and_self, if_true, reroot_rightmost] at hf ⊢
  have hmin := Represents.rightmost (c := ⟨.left, a, r⟩ :: c) h hl
    (hf.imp (show _ → _ < fuel by omega) (mt fun he => by rw [he, error_bind]))
  rw [hmin, hb, addr_node, ok_bind] at hf
  rw [hmin, hb, addr_node, ok_bind]
  have hf' : climb w < fuel ∨ Utils.deleteViolations fuel (s.reroot root) b.val.ptr ≠ .error .fuel :=
    hf.imp (by omega) (mt fun he => by rw [he, error_bind])
  obtain ⟨g, w', hgw⟩ : ∃ g w', w = g :: w' := List.exists_cons_of_ne_nil (by rw [hrs]; simp)
  rw [hgw] at h' hf' hrs ⊢
  rcases deleteViolations_below (e := .left) h' hf' with
    ⟨hq, he⟩ | ⟨k, f', c', s₁, hq, hk, _, _, e₁, h₁⟩
  · exact .inl ⟨hq, by rw [he, error_bind]⟩
  have hd : (pathPtrs (f' :: c')).Nodup := (List.nodup_append.mp h₁.nodup).1
  obtain ⟨p, f, post, hp, hfs, hfv, hps⟩ := Keeps.split (hrs ▸ hk) hside hd
  rw [hp] at h₁ hq hk
  have hr₁ : s₁.root = addr (plug (p ++ f :: post) nil) := by
    rw [h₁.root]
    exact addr_plug_congr (by simp) _ _
  obtain ⟨s₂, k', e₂, hk₁, hk₂, hr₂, h₂, hn₂, ht₂⟩ := Represents.unlinkMin (b := b.paint k) h₁ hfs hps
    (if b.color ≠ .red ∧ LiftsRoot (g :: w') then s₁.root else root)
  rw [hfv] at e₂ h₂ hk₁ hk₂
  rw [hr₁] at hk₁ hk₂
  refine .inr ⟨k, p, f, post, k', hq, hk, hfs, hfv, ?_, hk₁, hk₂, ?_⟩
  · rw [← hr₁, ← hfv]
    exact h₁.root_eq_iff
  rw [e₁, ok_bind]
  refine h.leavesUnder h₁ ?_ (by rw [hr₂]; exact e₂) h₂ (fun hno => ?_) hn₂ ht₂
  · rw [hk.vals_plug (t := node b x nil) (by simp [fork]), ← hgw, hw]
    rfl
  · have hf' : (⟨.left, ⟨k', b.val.copy a.val⟩, f.sibling⟩ : Frame (Cell Entry)) = ⟨f.side, ⟨k', b.val.copy a.val⟩, f.sibling⟩ := by
      rw [hfs]
    rw [hf', addr_plug_split (by rw [hfv]; rfl), (deleteFix_rebalances hq).addr_plug (fun hk hc => hno ⟨hk, hc⟩) (u := nil) rfl,
      ← hgw, ← show plug (⟨.left, a, r⟩ :: c) l = plug c (node a l r) from rfl, ← hw]
    exact addr_plug_congr (by simp [hgw]) _ _

lemma deleteNode_both {l r x : RbTree} (h : Represents rest s (plug c (node a l r))) (hl : l ≠ nil) (hr : r ≠ nil)
    (hb : rightmostNode l = node b x nil)
    (hf : 2 * (ptrs (plug c (node a l r))).length < fuel ∨ deleteNode fuel s a.val.ptr ≠ .error .fuel) :
    (deleteFix (rightPath (⟨.left, a, r⟩ :: c) l) b.color = none ∧ deleteNode fuel s a.val.ptr = .error .fault) ∨
      ∃ k p f c' k', deleteFix (rightPath (⟨.left, a, r⟩ :: c) l) b.color = some (k, p ++ f :: c') ∧
        Keeps (rightPath (⟨.left, a, r⟩ :: c) l) (p ++ f :: c') ∧ f.side = .left ∧ f.value.val = a.val ∧
        (c' = [] → k' = .black) ∧ (c' ≠ [] → k' = f.value.color) ∧
        Leaves s (plug c (node a l r)) (deleteNode fuel s a.val.ptr)
          (some (plug (p ++ ⟨.left, ⟨k', b.val.copy a.val⟩, f.sibling⟩ :: c') nil)) := by
  have hd := h.deleteNode_both_reroot hl hr hb (show _ ∨ deleteNode fuel (s.reroot s.root) _ ≠ _ by rwa [reroot_self])
  rw [reroot_self] at hd
  rcases hd with hd | ⟨k, p, f, c', k', hq, hk, hfs, hfv, hiff, hk₁, hk₂, hL⟩
  · exact .inl hd
  have hr' : (if b.color ≠ .red ∧ LiftsRoot (rightPath (⟨.left, a, r⟩ :: c) l) then addr (plug (p ++ f :: c') nil)
      else s.root) = addr (plug (p ++ f :: c') nil) := by
    split_ifs with hno
    · rfl
    · obtain ⟨-, -, -, ha, -⟩ := hL
      have hs := addr_plug_split (f := f) (p := p) (c := c') (b := ⟨k', b.val.copy a.val⟩) (by rw [hfv]; rfl) nil
      rw [hfs] at hs
      rw [h.root, ← ha hno, hs]
  rw [hr'] at hk₁ hk₂
  exact .inr ⟨k, p, f, c', k', hq, hk, hfs, hfv, hk₁ ∘ hiff.mpr, fun hc => hk₂ (mt hiff.mp hc), hL.leaves h.root⟩

lemma deleteFix_nil {d : Side} {a : Cell Entry} {c : RbPath} {k : Color} (hk : k ≠ .red) :
    deleteFix (⟨d, a, nil⟩ :: c) k = none := by
  rw [deleteFix, if_neg hk]

lemma collapse {d : Side} (h : Represents rest s (plug (⟨d, a, nil⟩ :: c) (node b nil nil))) :
    Represents (s.put a.val.ptr fun n => { n with color := .red, right := 0, left := 0 }).nodes
      (s.put a.val.ptr fun n => { n with color := .red, right := 0, left := 0 })
      (plug c (fork d (a.paint .red) nil nil)) := by
  have ha : s.nodes a.val.ptr = _ := nodes_eq (c := c) (d := d) (a := a) h
  have h₂ : Represents _ ((s.put a.val.ptr (·.setChild d 0)).put a.val.ptr (·.setColor .red))
      (plug c (fork d (a.paint .red) nil nil)) :=
    put (c := c) (d := d) (a := a) (b := a.paint .red) h.cutOff rfl fun _ _ _ => record_setColor ..
  refine h₂.outside rfl ?_
  intro q _
  by_cases hq : q = a.val.ptr
  · subst hq
    rw [put_nodes_self, put_nodes_self, put_nodes_self, ha]
    cases d <;> rfl
  · rw [put_nodes_ne hq, put_nodes_ne hq, put_nodes_ne hq]

lemma mem_ptrs_copied {d : Side} {k k' : Color} {q : Ptr} :
    q ∈ ptrs (plug (⟨d, ⟨k, b.val.copy a.val⟩, nil⟩ :: c) (node (b.paint k') nil nil)) ↔
      q ∈ ptrs (plug c (fork d a (node b nil nil) nil)) := by
  rw [plug_cons, Frame.plug, (ptrs_plug c _).mem_iff, (ptrs_plug c _).mem_iff, List.mem_append,
    List.mem_append, mem_ptrs_fork, mem_ptrs_fork, mem_ptrs_node, mem_ptrs_node]
  exact Iff.rfl

/-- `delete_node` of a node with one child starts with the copy of that child's range. -/
lemma deleteNode_copies {d : Side} (h : Represents rest s (plug c (fork d a (node b nil nil) nil))) (fuel : ℕ) (root : Ptr) : ∃ s₁,
    Represents rest s₁ (plug (⟨d, ⟨a.color, b.val.copy a.val⟩, nil⟩ :: c) (node b nil nil)) ∧
    (Utils.deleteNode fuel (s.reroot root) a.val.ptr = do
      let s ← Utils.deleteViolations fuel (s₁.reroot root) b.val.ptr
      let c ← s.load b.val.ptr
      let s ← s.modify a.val.ptr fun n => { n with color := c.color, right := c.right, left := c.left }
      Utils.settle s a.val.ptr b.val.ptr) ∧
    ((∀ q ∈ ptrs (plug c (fork d a (node b nil nil) nil)), (s.nodes q).Taken) →
      ∀ q ∈ ptrs (plug c (fork d a (node b nil nil) nil)), (s₁.nodes q).Taken) := by
  have ha : s.load a.val.ptr = _ := h.load
  have hch : Represents rest s (plug (⟨d, a, nil⟩ :: c) (node b nil nil)) := h
  have hb : s.load b.val.ptr = _ := hch.load (d := .left)
  have hzb : b.val.ptr ≠ 0 := hch.ptr_ne_zero (d := .left)
  have hza : a.val.ptr ≠ 0 := h.ptr_ne_zero
  set m := record .left b (addr nil) (addr nil) (parentAddr (⟨d, a, nil⟩ :: c)) with hm
  set s₁ := s.put a.val.ptr (m.copy ·) with hs₁
  have e₁ : s.modify a.val.ptr (m.copy ·) = .ok s₁ := by rw [RbState.modify, if_neg hza]
  refine ⟨s₁, h.put (b := ⟨a.color, b.val.copy a.val⟩) rfl fun _ _ _ => by cases d <;> rfl, ?_, fun ht q hq => ?_⟩
  · cases d <;> simp [Utils.deleteNode, ha, record, hzb, hb, reroot_modify e₁]
  · by_cases hqa : q = a.val.ptr
    · subst hqa
      have htb := ht b.val.ptr ((ptrs_plug ..).mem_iff.mpr
        (List.mem_append_right _ (mem_ptrs_fork.mpr (.inr (.inl (mem_ptrs_node.mpr (.inl rfl)))))))
      rw [hch.nodes_eq (d := .left) (a := b)] at htb
      rw [hs₁, put_nodes_self]
      exact htb
    · rw [hs₁, put_nodes_ne hqa]
      exact ht q hq

lemma deleteNode_single_reroot {d : Side} (h : Represents rest s (plug c (fork d a (node b nil nil) nil)))
    (hf : climb (⟨d, a, nil⟩ :: c) < fuel ∨ deleteNode fuel (s.reroot root) a.val.ptr ≠ .error .fuel) :
    (b.color ≠ .red → deleteNode fuel (s.reroot root) a.val.ptr = .error .fault) ∧
      (b.color = .red → ∃ k, (a.val.ptr = root → k = .black) ∧ (a.val.ptr ≠ root → k = .red) ∧
        LeavesUnder s root False (plug c (fork d a (node b nil nil) nil)) (deleteNode fuel (s.reroot root) a.val.ptr)
          (some (plug c (node ⟨k, b.val.copy a.val⟩ nil nil)))) := by
  have hch : Represents rest s (plug (⟨d, a, nil⟩ :: c) (node b nil nil)) := h
  have hzb : b.val.ptr ≠ 0 := hch.ptr_ne_zero (d := .left)
  have hza : a.val.ptr ≠ 0 := h.ptr_ne_zero
  obtain ⟨s₁, h₁, hstart, ht₁⟩ := h.deleteNode_copies fuel root
  set a' : Cell Entry := ⟨a.color, b.val.copy a.val⟩ with ha'
  rw [hstart] at hf ⊢
  have hf' : climb (⟨d, a', nil⟩ :: c) < fuel ∨ Utils.deleteViolations fuel (s₁.reroot root) b.val.ptr ≠ .error .fuel :=
    hf.imp id (mt fun he => by rw [he, error_bind])
  have hv := h₁.deleteViolations_reroot (e := .left) hf'
  constructor
  · intro hr
    rw [deleteFix_nil hr] at hv
    rw [show Utils.deleteViolations fuel (s₁.reroot root) b.val.ptr = .error .fault from hv, error_bind]
  · intro hr
    rw [hr, deleteFix_red] at hv
    obtain ⟨s₂, e₂, h₂⟩ := hv
    rw [if_neg (fun h => h.1 rfl)] at e₂
    replace h₂ : Represents rest s₂ (plug (⟨d, a', nil⟩ :: c) (node (b.paint .red) nil nil)) := h₂
    have hb₂ : s₂.load b.val.ptr = _ := h₂.load (d := .left) (a := b.paint .red)
    set s₃ := s₂.put a.val.ptr fun n => { n with color := .red, right := 0, left := 0 } with hs₃
    have e₃ : s₂.modify a.val.ptr (fun n => { n with color := .red, right := 0, left := 0 }) = .ok s₃ := by
      rw [RbState.modify, if_neg hza]
    have h₃ : Represents s₃.nodes s₃ (plug ([] ++ ⟨d, a'.paint .red, nil⟩ :: c) nil) := h₂.collapse
    have hcut : b.val.ptr ∉ ptrs (plug ([] ++ ⟨d, a'.paint .red, nil⟩ :: c) nil) := by
      have := h₂.cut (q := b.val.ptr) (mem_ptrs_node.mpr (.inl rfl))
      rw [(ptrs_plug ..).mem_iff] at this ⊢
      exact this
    obtain ⟨s₄, k, e₄, hk₁, hk₂, hr₄, h₄, hn₄, ht₄⟩ := h₃.settle hcut hzb root
    refine ⟨k, hk₁, hk₂, s₄, ?_, ?_, fun _ => addr_plug_of_addr c (by simp [Entry.copy]), ?_, ?_⟩
    · simp only [e₂, ok_bind, reroot_load, hb₂, record, Cell.paint_color, addr_nil, reroot_modify e₃, if_false]
      exact e₄
    · cases d <;> exact h₄
    · intro q hq
      have hqa : q ≠ a.val.ptr := by
        rintro rfl
        exact hq ((ptrs_plug ..).mem_iff.mpr (List.mem_append_right _ (mem_ptrs_fork.mpr (.inl rfl))))
      have hqb : q ≠ b.val.ptr := by
        rintro rfl
        exact hq ((ptrs_plug ..).mem_iff.mpr
          (List.mem_append_right _ (mem_ptrs_fork.mpr (.inr (.inl (mem_ptrs_node.mpr (.inl rfl)))))))
      rw [hn₄ q hqa hqb, hs₃, put_nodes_ne hqa, h₂.rest q (mt mem_ptrs_copied.mp hq), h.rest q hq]
    · intro ht q hq
      have ht₂ : ∀ q ∈ ptrs (plug (⟨d, a', nil⟩ :: c) (node (b.paint .red) nil nil)), (s₂.nodes q).Taken := by
        rw [h₂.taken_iff, vals_plug_congr _ (u := node b nil nil) (by simp), ← h₁.taken_iff]
        exact fun q hq => ht₁ ht q (mem_ptrs_copied.mp hq)
      refine ht₄ q ?_
      have htq := ht₂ q (mem_ptrs_copied.mpr hq)
      by_cases hqa : q = a.val.ptr
      · subst hqa
        rwa [hs₃, put_nodes_self]
      · rwa [hs₃, put_nodes_ne hqa]

lemma deleteNode_single {d : Side} (h : Represents rest s (plug c (fork d a (node b nil nil) nil)))
    (hf : climb (⟨d, a, nil⟩ :: c) < fuel ∨ deleteNode fuel s a.val.ptr ≠ .error .fuel) :
    (b.color ≠ .red → deleteNode fuel s a.val.ptr = .error .fault) ∧
      (b.color = .red → ∃ k, (c = [] → k = .black) ∧ (c ≠ [] → k = .red) ∧
        Leaves s (plug c (fork d a (node b nil nil) nil)) (deleteNode fuel s a.val.ptr)
          (some (plug c (node ⟨k, b.val.copy a.val⟩ nil nil)))) := by
  have hd := h.deleteNode_single_reroot (show _ ∨ deleteNode fuel (s.reroot s.root) _ ≠ _ by rwa [reroot_self])
  rw [reroot_self] at hd
  have hroot : a.val.ptr = s.root ↔ c = [] := root_eq_iff (p := []) (f := ⟨d, a, nil⟩) h
  refine ⟨hd.1, fun hr => ?_⟩
  obtain ⟨k, hk₁, hk₂, hL⟩ := hd.2 hr
  exact ⟨k, hk₁ ∘ hroot.mpr, fun hc => hk₂ (mt hroot.mp hc), hL.leaves h.root⟩

end Represents

end WordOS.Utils
