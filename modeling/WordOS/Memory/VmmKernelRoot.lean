import WordOS.Memory.VmmRuns
import WordOS.Memory.VmmTake
import WordOS.Utils.RbDeleteRoot

/-! A range taken from the VMM of a process: `delete_node` is given the root pointer of the kernel's VMM. -/

namespace WordOS.Memory

open Machine BinaryTree Utils Lib.Zipper Lib.ColoredTree

/-- Whether the deletion for a range of `length` bytes stays off the root. -/
def StaysOffRoot (start k length : ℕ) (t : RbTree) : Prop :=
  match victim start k length t with
  | some (c, node a l r) => KeepsRoot c a l r
  | _ => True

instance (start k length : ℕ) (t : RbTree) : Decidable (StaysOffRoot start k length t) := by
  unfold StaysOffRoot
  split <;> infer_instance

/-- The VMMs of the kernel and of a process, at `v`, with their free trees. -/
structure TwoTrees (s : VmmState) (v k : ℕ) (tk t : RbTree) : Prop where
  ne : v ≠ s.kernelVmm
  kernel : Represents s.nodes (s.tree s.kernelVmm) tk
  kernel_taken : AllTaken tk
  process : Holds s v k t
  redBlack : RedBlack t
  disjoint : ∀ q ∈ ptrs tk, q ∉ ptrs t
  room : k < SLOTS

/-- The kernel's free tree is as it was, and the root of the VMM at `v` is the black root of its tree. -/
def OwnTreeOnly (s : VmmState) (v : ℕ) (tk : RbTree) (e : Exec (Option ℕ × VmmState)) : Prop :=
  ∃ r u, e = .ok (r, u) ∧ (u.vmms s.kernelVmm).root = (s.vmms s.kernelVmm).root ∧
    (∀ q ∈ ptrs tk, u.nodes q = s.nodes q) ∧ ∃ t', Represents u.nodes (u.tree v) t' ∧ color t' = .black

variable {s : VmmState} {v k length fuel : ℕ} {tk t : RbTree}

namespace TwoTrees

lemma splitOff_eq (h : TwoTrees s v k tk t) (e : Entry) :
    ∃ t₁, splitOff (slotsOf s v) k length t e = some t₁ ∧ RedBlack t₁ ∧ (ptrs t₁).length ≤ (ptrs t).length + 1 ∧
      ∀ q ∈ ptrs tk, q ∉ ptrs t₁ := by
  rw [splitOff]
  split_ifs with hs
  · have hroot : paint .black t = t := paint_color h.redBlack.root_black
    obtain ⟨t₁, hi, hb, -, hv⟩ := insertFix_descend h.redBlack (e.size - length)
      (newEntry (slotsOf s v) k (u32 (e.base + length)) (e.size - length) 0)
    have hp : (ptrs t₁).Perm ((slotsOf s v + 32 * k) :: ptrs t) := hv.map Entry.ptr
    refine ⟨t₁, by rwa [hroot], hb, hp.length_eq.le, fun q hq => ?_⟩
    have hne : q ≠ slotsOf s v + 32 * k := by
      rintro rfl
      exact h.kernel_taken.not_mem h.kernel (h.process.slots.blank k le_rfl h.room) hq
    simp [hp.mem_iff, hne, h.disjoint q hq]
  · exact ⟨t, rfl, h.redBlack, by omega, h.disjoint⟩

lemma takeRange_foreign (h : TwoTrees s v k tk t) {c : RbPath} {a : Cell Entry} {l r : RbTree}
    (hfit : fit length [] t none = some (c, node a l r)) (hf : 2 * (ptrs t).length + k + 2 < fuel) :
    (StaysOffRoot (slotsOf s v) k length t → OwnTreeOnly s v tk (vmmTakeRange fuel s v length)) ∧
      (¬ StaysOffRoot (slotsOf s v) k length t → ¬ OwnTreeOnly s v tk (vmmTakeRange fuel s v length)) := by
  obtain ⟨t₁, hs, hb, hlen, hker⟩ := h.splitOff_eq a.val
  have htake := h.process.takeRange_eq hfit (fun _ => h.room) (.inl (show _ < fuel by omega))
  rw [hs] at htake
  obtain ⟨s₁, hrep, ha₁, hout, htake⟩ := htake
  set u := s.setTree v s₁ with hu
  have hkv : u.vmms s.kernelVmm = s.vmms s.kernelVmm := VmmState.setTree_vmms_ne (Ne.symm h.ne)
  have hkn : ∀ q ∈ ptrs tk, u.nodes q = s.nodes q := fun q hq => by
    refine hout q (h.disjoint q hq) ?_
    rintro rfl
    exact h.kernel_taken.not_mem h.kernel (h.process.slots.blank k le_rfl h.room) hq
  obtain ⟨c₁, b, l₁, r₁, hseek, hptr, hplug⟩ := seek_eq (c := []) (p := a.val.ptr) (t := t₁) (List.mem_map_of_mem ha₁)
  have hiff : StaysOffRoot (slotsOf s v) k length t ↔ KeepsRoot c₁ b l₁ r₁ := by
    have hv : victim (slotsOf s v) k length t = some (c₁, node b l₁ r₁) := by
      simp only [victim, hfit, bind, Option.bind_some, hs, hseek]
    rw [StaysOffRoot, hv]
  rw [plug_nil] at hplug
  have hroot : (s.vmms s.kernelVmm).root ∉ ptrs t₁ := by
    have hkr : (s.vmms s.kernelVmm).root = addr tk := h.kernel.root
    rw [hkr]
    by_cases htk : tk = nil
    · rw [htk, addr_nil]
      exact hrep.tree.nonnull
    · exact hker _ (addr_mem htk)
  subst hplug
  have hur : u.tree s.kernelVmm = (u.tree v).reroot (s.vmms s.kernelVmm).root := by
    rw [VmmState.tree, hkv]
    rfl
  have hd := hrep.tree.deleteNode_foreign hb hroot (show _ < fuel by omega)
  rw [hiff, htake, hur, ← hptr]
  refine ⟨fun hk => ?_, fun hk => ?_⟩
  · obtain ⟨w, t', e, hw, hwr, hc, hn⟩ := hd.1 hk
    refine ⟨some a.val.base, u.setTree s.kernelVmm (w.reroot (s.vmms s.kernelVmm).root), by rw [e]; rfl, by simp,
      fun q hq => ?_, t', ?_, hc⟩
    · exact (hn q (hker q hq)).trans (hkn q hq)
    · refine ⟨?_, hw.rep, hw.distinct, hw.nonnull, fun _ _ => rfl⟩
      rw [VmmState.tree_root, VmmState.setTree_vmms_ne h.ne, ← hw.root, hwr, VmmState.tree_root]
  · rintro ⟨ro, u', he, hr', -, t', ht', hc⟩
    rcases hd.2 hk with e | ⟨w, e, hw⟩
    · rw [e] at he
      cases he
    · rw [e] at he
      obtain ⟨-, rfl⟩ := Prod.mk.inj (Except.ok.inj he)
      rw [VmmState.setTree_root_self] at hr'
      refine (hw.resolve_left (not_not.mpr hr')) t' ⟨?_, ht'.rep, ht'.distinct, ht'.nonnull, fun _ _ => rfl⟩ hc
      have := ht'.root
      rwa [VmmState.tree_root, VmmState.setTree_vmms_ne h.ne] at this

lemma own_of_none (h : TwoTrees s v k tk t) (hfit : fit length [] t none = none) (hf : (ptrs t).length < fuel) :
    OwnTreeOnly s v tk (vmmTakeRange fuel s v length) :=
  ⟨none, s, h.process.takeRange_none hfit (.inl hf), rfl, fun _ _ => rfl, t, h.process.tree, h.redBlack.root_black⟩

lemma own (h : TwoTrees s v k tk t) (hf : 2 * (ptrs t).length + k + 2 < fuel) :
    (StaysOffRoot (slotsOf s v) k length t → OwnTreeOnly s v tk (vmmTakeRange fuel s v length)) ∧
      (¬ StaysOffRoot (slotsOf s v) k length t → ¬ OwnTreeOnly s v tk (vmmTakeRange fuel s v length)) := by
  cases hfit : fit length [] t none with
  | none =>
    have hs : StaysOffRoot (slotsOf s v) k length t := by
      have hv : victim (slotsOf s v) k length t = none := by
        rw [victim, hfit]
        rfl
      rw [StaysOffRoot, hv]
      trivial
    exact ⟨fun _ => h.own_of_none hfit (by omega), fun hk => (hk hs).elim⟩
  | some q =>
    obtain ⟨c, t'⟩ := q
    rcases fit_mem hfit with hno | ⟨-, a, l, r, rfl, -⟩
    · cases hno
    · exact h.takeRange_foreign hfit hf

end TwoTrees

/-- The free-tree update of `vmm_page_alloc` on a process's VMM, where `length` is the rounded length. -/
theorem vmmTakeRange_own_iff (h : TwoTrees s v k tk t) (hf : 2 * (ptrs t).length + k + 2 < fuel) :
    OwnTreeOnly s v tk (vmmTakeRange fuel s v length) ↔ StaysOffRoot (slotsOf s v) k length t :=
  ⟨fun ho => by_contra fun hk => (h.own hf).2 hk ho, (h.own hf).1⟩

/-- The free tree of the kernel's VMM at 0x1000, in its first slot. -/
def kernelTree : RbTree := node ⟨.black, 0x1060, 0, 0xD0000000, 0x100000, 3⟩ nil nil

def besideKernel (t : RbTree) : VmmState where
  nodes := lay (lay (fun _ => blankNode) 0 kernelTree) 0 t
  vmms := fun v => if v = 0x1000 then ⟨1, 0, 0, 0, addr kernelTree, 0x1030, 0xD0000000, 0xFFE00000⟩
    else ⟨1, 0, 0, 0, addr t, 0x2030, 0x10000, 0xC0000000⟩
  kernelVmm := 0x1000
  paging := oneTable

lemma besideKernel_twoTrees (hd : (ptrs t).Nodup) (hb : RedBlack t) (ht : ∀ e ∈ vals t, e.flags = 3) (hk : k < SLOTS)
    (hs : ∀ i < k, 0x2060 + 32 * i ∈ ptrs t) (hp : ∀ q ∈ ptrs t, ∃ i < k, q = 0x2060 + 32 * i) :
    TwoTrees (besideKernel t) 0x2000 k kernelTree t := by
  have hz : 0 ∉ ptrs t := fun hm => by
    obtain ⟨i, -, hi⟩ := hp 0 hm
    exact absurd hi.symm (Nat.ne_of_gt (Nat.add_pos_left (by decide) _))
  have hkt : ∀ i < SLOTS, 0x2060 + 32 * i ∉ ptrs kernelTree := by decide
  have hdisj : ∀ q ∈ ptrs kernelTree, q ∉ ptrs t := fun q hq hm => by
    obtain ⟨i, hi, rfl⟩ := hp q hm
    exact hkt i (hi.trans hk) hq
  have htaken : AllTaken t := fun e he => by
    rw [ht e he]
    decide
  have hr := represents_lay (lay (fun _ => blankNode) 0 kernelTree) hd hz
  have hkr := represents_lay (fun _ => blankNode) (t := kernelTree) (by decide) (by decide)
  have hkr' : Represents (besideKernel t).nodes ((besideKernel t).tree 0x1000) kernelTree :=
    ⟨hkr.root, hkr.rep.congr fun q hq => lay_outside (hdisj q hq), hkr.distinct, hkr.nonnull, fun _ _ => rfl⟩
  have hr' : Represents (besideKernel t).nodes ((besideKernel t).tree 0x2000) t := hr.outside rfl fun q hq => rfl
  have hslots : slotsOf (besideKernel t) 0x2000 = 0x2060 := rfl
  refine ⟨?_, hkr', by simp [AllTaken, kernelTree], ⟨hr', htaken, ?_, fun i hi => ?_, fun i hi hlt => ?_⟩, hb, hdisj, hk⟩
  · change 0x2000 ≠ 0x1000
    decide
  · rw [hslots]
    decide
  · rw [hslots]
    exact hr.taken_iff.mpr htaken _ (hs i hi)
  · have hq : 0x2060 + 32 * i ∉ ptrs t := fun hm => by
      obtain ⟨j, hj, he⟩ := hp _ hm
      have := Nat.eq_of_mul_eq_mul_left (by decide) (Nat.add_left_cancel he)
      omega
    exact (lay_outside hq).trans (lay_outside (hkt i hlt))

def threeFree : RbTree :=
  node ⟨.black, 0x2060, 0, 0x20000, 0x2000, 3⟩ (node ⟨.red, 0x2080, 0, 0x10000, 0x1000, 3⟩ nil nil)
    (node ⟨.red, 0x20A0, 0, 0x30000, 0x3000, 3⟩ nil nil)

theorem vmmTakeRange_own_iff_leaf : TwoTrees (besideKernel threeFree) 0x2000 3 kernelTree threeFree ∧
    OwnTreeOnly (besideKernel threeFree) 0x2000 kernelTree (vmmTakeRange 12 (besideKernel threeFree) 0x2000 0x1000) := by
  have h : TwoTrees (besideKernel threeFree) 0x2000 3 kernelTree threeFree :=
    besideKernel_twoTrees (by decide) ⟨rfl, ⟨by decide, ⟨by decide, trivial, trivial⟩, by decide, trivial, trivial⟩,
      1, 0, rfl, ⟨rfl, rfl⟩, rfl, rfl⟩ (by decide) (by decide) (by decide) (by decide)
  exact ⟨h, (vmmTakeRange_own_iff h (by decide)).mpr (by decide)⟩

def oneFree : RbTree := node ⟨.black, 0x2060, 0, 0x10000, 0xC0000000, 3⟩ nil nil

/-- The first page taken from a new process leaves the root of its tree red. -/
theorem vmmTakeRange_not_own : TwoTrees (besideKernel oneFree) 0x2000 1 kernelTree oneFree ∧
    ∀ fuel, 5 < fuel → ¬ OwnTreeOnly (besideKernel oneFree) 0x2000 kernelTree
      (vmmTakeRange fuel (besideKernel oneFree) 0x2000 0x1000) := by
  have h : TwoTrees (besideKernel oneFree) 0x2000 1 kernelTree oneFree :=
    besideKernel_twoTrees (by decide) ⟨rfl, ⟨by decide, trivial, trivial⟩, 1, 0, rfl, rfl, rfl⟩ (by decide) (by decide)
      (by decide) (by decide)
  exact ⟨h, fun fuel hf => (h.own hf).2 (by decide)⟩

end WordOS.Memory
