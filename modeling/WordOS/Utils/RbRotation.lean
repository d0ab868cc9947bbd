import WordOS.Utils.RbShape

/-! The rotations of `rbtree.c` relink a tree exactly as `rot` reshapes it. -/

namespace WordOS.Utils

open Machine BinaryTree Lib.Zipper Lib.ColoredTree

@[simp] lemma put_nodes_self (s : RbState) (p : Ptr) (f) : (s.put p f).nodes p = f (s.nodes p) := by
  simp [RbState.put]
lemma put_nodes_ne {s : RbState} {p q : Ptr} {f} (h : q ≠ p) : (s.put p f).nodes q = s.nodes q := by
  simp [RbState.put, h]
@[simp] lemma put_root (s : RbState) (p : Ptr) (f) : (s.put p f).root = s.root := rfl

def RbState.reroot (s : RbState) (root : Ptr) : RbState := { s with root := root }

section

variable (s : RbState) (p r r' : Ptr)

@[simp] lemma reroot_nodes : (s.reroot r).nodes = s.nodes := rfl
@[simp] lemma reroot_root : (s.reroot r).root = r := rfl
@[simp] lemma reroot_reroot : (s.reroot r).reroot r' = s.reroot r' := rfl
@[simp] lemma reroot_self : s.reroot s.root = s := rfl
@[simp] lemma reroot_load : (s.reroot r).load p = s.load p := rfl
@[simp] lemma reroot_put (f : RbNode → RbNode) : (s.reroot r).put p f = (s.put p f).reroot r := rfl

end

lemma reroot_modify {s s' : RbState} {p r : Ptr} {f : RbNode → RbNode} (h : s.modify p f = .ok s') :
    (s.reroot r).modify p f = .ok (s'.reroot r) := by
  rw [RbState.modify] at h ⊢
  split_ifs at h ⊢
  rw [← Except.ok.inj h, reroot_put]

@[simp] lemma setChild_parent (d : Side) (p : Ptr) (n : RbNode) : (n.setChild d p).parent = n.parent := by cases d <;> rfl
@[simp] lemma setParent_child (d : Side) (p : Ptr) (n : RbNode) : (n.setParent p).child d = n.child d := by cases d <;> rfl
@[simp] lemma setParent_left (p : Ptr) (n : RbNode) : (n.setParent p).left = n.left := rfl

lemma setParentOf_ok (s : RbState) (p q : Ptr) : ∃ t, setParentOf s p q = .ok t ∧ t.root = s.root ∧
    (p ≠ 0 → t.nodes p = (s.nodes p).setParent q) ∧ ∀ r, (r = p → p = 0) → t.nodes r = s.nodes r := by
  by_cases hp : p = 0
  · exact ⟨s, by rw [setParentOf, if_pos hp], rfl, fun h => (h hp).elim, fun _ _ => rfl⟩
  · exact ⟨s.put p (·.setParent q), by rw [setParentOf, RbState.modify, if_neg hp, if_neg hp], rfl,
      fun _ => put_nodes_self .., fun _ hr => put_nodes_ne (hp ∘ hr)⟩

lemma replaceChild_ok {s : RbState} {p a y : Ptr} {e : Side}
    (he : p ≠ 0 → ((s.nodes p).left = a ↔ e = .left)) : ∃ t, replaceChild s p a y = .ok t ∧
      t.root = (if p = 0 then y else s.root) ∧ (p ≠ 0 → t.nodes p = (s.nodes p).setChild e y) ∧
      ∀ r, (r = p → p = 0) → t.nodes r = s.nodes r := by
  by_cases hp : p = 0
  · exact ⟨{ s with root := y }, by rw [replaceChild, if_pos hp], by rw [if_pos hp],
      fun h => (h hp).elim, fun _ _ => rfl⟩
  · have hl : (if a = (s.nodes p).left then Side.left else .right) = e := by
      have := he hp
      split <;> cases e <;> simp_all
    exact ⟨s.put p (·.setChild e y), by simp [replaceChild, RbState.load, RbState.modify, hp, hl],
      by rw [if_neg hp, put_root], fun _ => put_nodes_self .., fun _ hr => put_nodes_ne (hp ∘ hr)⟩

/-- What a rotation writes: the two nodes exchange places, the inner subtree `Y` and the
parent `P` are relinked when they exist, and nothing else changes. -/
lemma rotation_eval {s : RbState} {d e : Side} {A B Y P : Ptr} (hA : A ≠ 0) (hB : B ≠ 0) (hAB : A ≠ B)
    (hc : (s.nodes A).child d = B) (hi : (s.nodes B).child d.flip = Y) (hp : (s.nodes A).parent = P)
    (hYA : Y ≠ A) (hYB : Y ≠ B) (hPA : P ≠ A) (hPB : P ≠ B) (hPY : P ≠ 0 → P ≠ Y)
    (he : P ≠ 0 → ((s.nodes P).left = A ↔ e = .left)) :
    ∃ s', rotation d s A = .ok s' ∧ s'.root = (if P = 0 then B else s.root) ∧
      s'.nodes A = ((s.nodes A).setChild d Y).setParent B ∧
      s'.nodes B = ((s.nodes B).setParent P).setChild d.flip A ∧
      (Y ≠ 0 → s'.nodes Y = (s.nodes Y).setParent A) ∧
      (P ≠ 0 → s'.nodes P = (s.nodes P).setChild e B) ∧
      ∀ q, q ≠ A → q ≠ B → (q = Y → Y = 0) → (q = P → P = 0) → s'.nodes q = s.nodes q := by
  have hAY : A = Y → Y = 0 := fun h => (hYA h.symm).elim
  have hBY : B = Y → Y = 0 := fun h => (hYB h.symm).elim
  have hAP : A = P → P = 0 := fun h => (hPA h.symm).elim
  have hBP : B = P → P = 0 := fun h => (hPB h.symm).elim
  let s1 := s.put A (·.setChild d Y)
  have n1 : ∀ q, q ≠ A → s1.nodes q = s.nodes q := fun q hq => put_nodes_ne hq
  obtain ⟨s2, e2, r2, y2, n2⟩ := setParentOf_ok s1 Y A
  have a2 : s2.nodes A = (s.nodes A).setChild d Y := by rw [n2 A hAY]; exact put_nodes_self ..
  let s3 := s2.put B (·.setParent P)
  have n3 : ∀ q, q ≠ B → s3.nodes q = s2.nodes q := fun q hq => put_nodes_ne hq
  have p3 : P ≠ 0 → s3.nodes P = s.nodes P := fun hP => by
    rw [n3 P hPB, n2 P (fun h => (hPY hP h).elim), n1 P hPA]
  obtain ⟨s4, e4, r4, p4, n4⟩ := replaceChild_ok (s := s3) (p := P) (a := A) (y := B) (e := e)
    (fun hP => by rw [p3 hP]; exact he hP)
  let s5 := s4.put B (·.setChild d.flip A)
  have n5 : ∀ q, q ≠ B → s5.nodes q = s4.nodes q := fun q hq => put_nodes_ne hq
  let s6 := s5.put A (·.setParent B)
  have n6 : ∀ q, q ≠ A → s6.nodes q = s5.nodes q := fun q hq => put_nodes_ne hq
  refine ⟨s6, ?_, ?_, ?_, ?_, ?_, ?_, ?_⟩
  · have h2 : (s2.nodes A).parent = P := by rw [a2, setChild_parent, hp]
    simp only [rotation, RbState.load, RbState.modify, if_neg hA, if_neg hB, ok_bind, hc, hi]
    rw [e2, ok_bind, h2, e4, ok_bind]
  · exact r4.trans (by rw [show s3.root = s.root from r2])
  · rw [show s6.nodes A = (s5.nodes A).setParent B from put_nodes_self .., n5 A hAB, n4 A hAP,
      n3 A hAB, a2]
  · rw [n6 B hAB.symm, show s5.nodes B = (s4.nodes B).setChild d.flip A from put_nodes_self ..,
      n4 B hBP, show s3.nodes B = (s2.nodes B).setParent P from put_nodes_self ..,
      n2 B hBY, n1 B hAB.symm]
  · intro hY
    have hYP : Y = P → P = 0 := fun h => by_contra fun hP => hPY hP h.symm
    rw [n6 Y hYA, n5 Y hYB, n4 Y hYP, n3 Y hYB, y2 hY, n1 Y hYA]
  · intro hP
    rw [n6 P hPA, n5 P hPB, p4 hP, p3 hP]
  · intro q ha hb hy hp'
    rw [n6 q ha, n5 q hb, n4 q hp', n3 q hb, n2 q hy, n1 q ha]

lemma rotate_eq (d : Side) : rotate d = rotation d := by cases d <;> rfl

lemma addr_plug_congr {c : RbPath} (hc : c ≠ []) (t u : RbTree) : addr (plug c t) = addr (plug c u) := by
  induction c generalizing t u with
  | nil => exact (hc rfl).elim
  | cons f c ih =>
    rw [plug_cons, plug_cons]
    by_cases h : c = []
    · subst h
      simp [Frame.plug]
    · exact ih h _ _

lemma Represents.rotate_reroot {rest : Ptr → RbNode} {s : RbState} {c : RbPath} {d : Side} {a b : Cell Entry} {x y z : RbTree}
    (h : Represents rest s (plug c (fork d a (fork d b x y) z))) (root : Ptr) :
    ∃ s', Utils.rotate d (s.reroot root) a.val.ptr = .ok (s'.reroot (if c = [] then s'.root else root)) ∧
      Represents rest s' (plug c (fork d b x (fork d a y z))) := by
  obtain ⟨hpath, hrep⟩ := h.focus
  rw [addr_fork] at hpath
  obtain ⟨hA, hbx, hrz⟩ := (rep_fork ..).mp hrep
  obtain ⟨hB, hrx, hry⟩ := (rep_fork ..).mp hbx
  rw [addr_fork] at hA
  have hperm : (pathPtrs c ++ ptrs (fork d a (fork d b x y) z)).Perm
      (pathPtrs c ++ a.val.ptr :: b.val.ptr :: (ptrs x ++ (ptrs y ++ ptrs z))) := by
    rw [List.perm_iff_count]
    intro q
    simp only [List.count_append, List.count_cons, (ptrs_fork d a _ z).count_eq q,
      (ptrs_fork d b x y).count_eq q]
    omega
  have hd := hperm.nodup_iff.mp h.nodup
  have hz : 0 ∉ _ := fun hm => h.ne_zero (hperm.mem_iff.mpr hm)
  simp only [List.nodup_append, List.nodup_cons, List.mem_append, List.mem_cons, not_or] at hd hz
  obtain ⟨hdc, ⟨hda, hdb, hdx, ⟨hdy, hdz, hdyz⟩, hdxy⟩, hdisj⟩ := hd
  have hy := addr_cases y
  have hp := parentAddr_cases c
  have hAc : a.val.ptr ∉ pathPtrs c := fun hm => hdisj _ hm _ (.inl rfl) rfl
  obtain ⟨u, he, hur, ha', hb', hy', hp', ho⟩ := rotation_eval (s := s.reroot root) (d := d) (e := holeSide c)
    (A := a.val.ptr) (B := b.val.ptr) (Y := addr y) (P := parentAddr c) (by grind) (by grind) (by grind)
    (by rw [reroot_nodes, hA, record_child]) (by rw [reroot_nodes, hB, record_child_flip])
    (by rw [reroot_nodes, hA, record_parent])
    (by grind) (by grind) (by grind) (by grind) (by grind) (hpath.left_iff (by grind) hAc)
  rw [reroot_nodes] at ha' hb' hy' hp' ho
  rw [hA, record_setChild, record_setParent] at ha'
  rw [hB, record_setParent, record_setChild_flip] at hb'
  set s' := u.reroot (if parentAddr c = 0 then b.val.ptr else s.root) with hs'
  have hr : s'.root = if parentAddr c = 0 then b.val.ptr else s.root := rfl
  have hu : u = s'.reroot (if c = [] then s'.root else root) := by
    have hc : parentAddr c = 0 ↔ c = [] := by
      cases c with
      | nil => simp [parentAddr]
      | cons f c => simpa [parentAddr] using Ne.symm (fun h0 => hz.1 (by simp [pathPtrs, h0]))
    rw [hs', reroot_reroot, reroot_root]
    rw [reroot_root] at hur
    by_cases hcn : c = []
    · rw [if_pos hcn, if_pos (hc.mpr hcn)]
      rw [if_pos (hc.mpr hcn)] at hur
      rw [← hur, reroot_self]
    · rw [if_neg hcn]
      rw [if_neg (mt hc.mp hcn)] at hur
      rw [← hur, reroot_self]
  refine ⟨s', by rw [rotate_eq, he, ← hu], h.relink ?_ ?_ ?_ ?_⟩
  · rw [List.perm_iff_count]
    intro q
    simp only [List.count_append, List.count_cons, (ptrs_fork d a _ z).count_eq q,
      (ptrs_fork d b x y).count_eq q, (ptrs_fork d b x _).count_eq q]
    omega
  · rw [addr_fork]
    refine hpath.rehole hr hp' ?_ hdc hz.1
    intro q hq hqp
    exact ho q (by grind) (by grind) (by grind) (fun h => (hqp h).elim)
  · refine (rep_fork ..).mpr ⟨by rw [addr_fork]; exact hb', hrx.congr ?_, ?_⟩
    · intro q hq
      exact ho q (by grind) (by grind) (by grind) (by grind)
    · refine (rep_fork ..).mpr ⟨ha', hry.reparent ?_ ?_ hdy, hrz.congr ?_⟩
      · intro hn
        exact hy' (by grind [addr_mem])
      · intro q hq hqy
        exact ho q (by grind) (by grind) (fun h => (hqy h).elim) (by grind)
      · intro q hq
        exact ho q (by grind) (by grind) (by grind) (by grind)
  · intro q hq
    rw [hperm.mem_iff] at hq
    simp only [List.mem_append, List.mem_cons, not_or] at hq
    exact ho q (by grind) (by grind) (by grind) (by grind)

lemma Represents.rotate {rest : Ptr → RbNode} {s : RbState} {c : RbPath} {d : Side} {a b : Cell Entry} {x y z : RbTree}
    (h : Represents rest s (plug c (fork d a (fork d b x y) z))) :
    ∃ s', Utils.rotate d s a.val.ptr = .ok s' ∧ Represents rest s' (plug c (fork d b x (fork d a y z))) := by
  obtain ⟨s', he, h'⟩ := h.rotate_reroot s.root
  refine ⟨s', ?_, h'⟩
  rw [reroot_self] at he
  by_cases hc : c = []
  · rwa [if_pos hc, reroot_self] at he
  · rwa [if_neg hc, h.root, addr_plug_congr hc _ (fork d b x (fork d a y z)), ← h'.root, reroot_self] at he

end WordOS.Utils
