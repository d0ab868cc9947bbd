import WordOS.Memory.VmmRuns
import WordOS.Memory.Transfer
import WordOS.Utils.RbSearch

/-! `vmm_transfer_dynamic`: a VMM is copied to another store page, with the links between its nodes as they were. -/

namespace WordOS.Memory

open Machine BinaryTree Utils Lib.Zipper Lib.ColoredTree

/-- `memcpy` of a store page, the struct in front and the nodes behind it. -/
def copyStore (s : VmmState) (dst src : ℕ) : VmmState :=
  { s with
    nodes := fun p => if dst ≤ p ∧ p < dst + 4096 then s.nodes (src + (p - dst)) else s.nodes p
    vmms := Function.update s.vmms dst (s.vmms src) }

/-- `toTrans` is where the pointer to the VMM lies and `old` is its value. What the new `vm_obj_store_addr` is computed by,
from the new page and the offset of the old address, is left open. -/
def vmmTransferDynamic (storeAddr : ℕ → ℕ → ℕ) (fuel : ℕ) (s : VmmState) (toTrans old rootPd : ℕ) : Exec (ℕ × VmmState) := do
  let (newVmmSto, s) ← pageKalloc fuel s 4096 0x3 0
  if newVmmSto = 0 then throw .fault
  let s := copyStore s newVmmSto old
  let rootOffset := u32 ((s.vmms old).root + 2 ^ 32 - old)
  let v := s.vmms newVmmSto
  let v := { v with
    vmObjStoreAddr := storeAddr newVmmSto (v.vmObjStoreAddr % 2 ^ 10)
    root := u32 (newVmmSto + rootOffset) }
  let paging ← memoryUnmap s.paging rootPd toTrans
  return (newVmmSto, { s with vmms := Function.update s.vmms newVmmSto v, paging := paging })

/-- The nodes that the root leads to, by links of all three kinds. -/
inductive Reaches (s : RbState) : Ptr → Prop
  | root : s.root ≠ 0 → Reaches s s.root
  | child {p} (d : Side) : Reaches s p → (s.nodes p).child d ≠ 0 → Reaches s ((s.nodes p).child d)
  | parent {p} : Reaches s p → (s.nodes p).parent ≠ 0 → Reaches s (s.nodes p).parent

def ranges (t : RbTree) : List (ℕ × ℕ) := (vals t).map fun e => (e.base, e.size)

def InPage (page p : ℕ) : Prop := page ≤ p ∧ p + 32 ≤ page + 4096

instance (page p : ℕ) : Decidable (InPage page p) := inferInstanceAs (Decidable (_ ∧ _))

/-- The tree of a VMM lies in the page and is valid, with the given ranges. -/
def MovedTo (s : RbState) (page : ℕ) (l : List (ℕ × ℕ)) : Prop :=
  (∀ p, Reaches s p → InPage page p) ∧ ∃ t, Represents s.nodes s t ∧ RedBlack t ∧ Sorted t ∧ (ranges t).Perm l

variable {storeAddr : ℕ → ℕ → ℕ} {s s₁ s' : VmmState} {fuel toTrans old new rootPd p : ℕ} {t l r : RbTree} {a : Cell Entry}

lemma vmmTransferDynamic_tree (hk : pageKalloc fuel s 4096 0x3 0 = .ok (new, s₁)) (hdisj : new ≠ old)
    (h : vmmTransferDynamic storeAddr fuel s toTrans old rootPd = .ok (new, s')) :
    new ≠ 0 ∧ (s'.tree new).root = u32 (new + u32 ((s₁.tree old).root + 2 ^ 32 - old)) ∧
      (∀ p, InPage new p → s'.nodes p = s₁.nodes (old + (p - new))) := by
  rw [vmmTransferDynamic, hk, ok_bind] at h
  dsimp only at h
  split_ifs at h with h0
  · cases h
  obtain ⟨paging, -, h⟩ := bind_eq_ok.mp h
  obtain ⟨-, rfl⟩ := Prod.mk.inj (Except.ok.inj h)
  have hold : (copyStore s₁ new old).vmms old = s₁.vmms old := Function.update_of_ne hdisj.symm ..
  refine ⟨h0, ?_, fun p hp => ?_⟩
  · simp only [VmmState.tree, Function.update_self, hold]
  · obtain ⟨hle, hlt⟩ := hp
    change (if new ≤ p ∧ p < new + 4096 then s₁.nodes (old + (p - new)) else s₁.nodes p) = _
    rw [if_pos ⟨hle, by omega⟩]

lemma u32_moved (hnew : new + 4096 ≤ 2 ^ 32) (hp : InPage old p) :
    u32 (new + u32 (p + 2 ^ 32 - old)) = new + (p - old) ∧ InPage new (new + (p - old)) := by
  obtain ⟨hle, hle'⟩ := hp
  rw [u32, u32, InPage]
  omega

lemma exists_child (h0 : 0 ∉ ptrs (node a l r)) (h1 : (ptrs (node a l r)).length ≠ 1) :
    ∃ d, (record .left a (addr l) (addr r) 0).child d ≠ 0 ∧ (record .left a (addr l) (addr r) 0).child d ∈ ptrs (node a l r) := by
  by_cases hl : l = nil
  · have hr : r ≠ nil := by
      rintro rfl
      subst hl
      exact h1 rfl
    have hm : addr r ∈ ptrs (node a l r) := mem_ptrs_node.mpr (.inr (.inr (addr_mem hr)))
    exact ⟨.right, fun h => h0 (h ▸ hm), hm⟩
  · have hm : addr l ∈ ptrs (node a l r) := mem_ptrs_node.mpr (.inr (.inl (addr_mem hl)))
    exact ⟨.left, fun h => h0 (h ▸ hm), hm⟩

lemma Reaches.eq_root {s : RbState} (h : Reaches s p) (hn : s.nodes s.root = record .left a 0 0 0) : p = s.root := by
  induction h with
  | root h0 => rfl
  | @child p d _ h0 ih =>
    rw [ih, hn] at h0
    cases d <;> exact absurd rfl h0
  | @parent p _ h0 ih =>
    rw [ih, hn] at h0
    exact absurd rfl h0

lemma not_inPage_of_empty (hold : 0 < old) (hlt : old + 4096 ≤ 2 ^ 32) (hnew : new + 4096 ≤ 2 ^ 32) (hdisj : new ≠ old) :
    u32 (new + u32 (0 + 2 ^ 32 - old)) ≠ 0 ∧ ¬ InPage new (u32 (new + u32 (0 + 2 ^ 32 - old))) := by
  rw [u32, u32, InPage]
  omega

lemma movedTo_single {s : RbState} (hroot : s.root = p) (hp : s.nodes p = record .left a 0 0 0) (hin : InPage new p) (h0 : p ≠ 0)
    (hb : RedBlack (node a nil nil)) : MovedTo s new (ranges (node a nil nil)) := by
  constructor
  · intro q hq
    rw [hq.eq_root (hroot ▸ hp), hroot]
    exact hin
  · refine ⟨node ⟨a.color, { a.val with ptr := p }⟩ nil nil, ⟨hroot, ⟨hp, trivial, trivial⟩, ?_, ?_, ?_⟩,
      ⟨hb.root_black, hb.noRedRed, hb.height⟩, ?_, .refl _⟩
    · simp [ptrs]
    · simpa [ptrs] using h0.symm
    · exact fun _ _ => rfl
    · simp [Sorted]

/-- The tree at the new page is valid if and only if it is a single node: links of other nodes still lead to the old page. -/
theorem vmmTransferDynamic_moves_iff (hk : pageKalloc fuel s 4096 0x3 0 = .ok (new, s₁))
    (ht : Represents s₁.nodes (s₁.tree old) t) (hb : RedBlack t) (hs : Sorted t) (hin : ∀ p ∈ ptrs t, InPage old p)
    (hold : 0 < old) (hlt : old + 4096 ≤ 2 ^ 32) (hnew : new + 4096 ≤ 2 ^ 32) (hdisj : new + 4096 ≤ old ∨ old + 4096 ≤ new)
    (h : vmmTransferDynamic storeAddr fuel s toTrans old rootPd = .ok (new, s')) :
    MovedTo (s'.tree new) new (ranges t) ↔ (ptrs t).length = 1 := by
  obtain ⟨hpos, hroot, hnodes⟩ := vmmTransferDynamic_tree hk (by omega) h
  rw [ht.root] at hroot
  cases t with
  | nil =>
    obtain ⟨h0, hout⟩ := not_inPage_of_empty hold hlt hnew (show new ≠ old by omega)
    rw [addr_nil] at hroot
    refine ⟨fun ⟨hreach, _⟩ => ?_, fun h1 => absurd h1 (by simp)⟩
    have hin := hreach _ (.root (hroot.trans_ne h0))
    rw [hroot] at hin
    exact absurd hin hout
  | node a l r =>
    have ha : a.val.ptr ∈ ptrs (node a l r) := mem_ptrs_node.mpr (.inl rfl)
    obtain ⟨hmoved, hinNew⟩ := u32_moved hnew (hin _ ha)
    rw [addr_node, hmoved] at hroot
    have hcopy : s'.nodes (new + (a.val.ptr - old)) = record .left a (addr l) (addr r) 0 := by
      obtain ⟨hle, -⟩ := hin _ ha
      rw [hnodes _ hinNew, show old + (new + (a.val.ptr - old) - new) = a.val.ptr by omega]
      exact ht.nodes_eq (c := []) (d := .left)
    have hne : new + (a.val.ptr - old) ≠ 0 := Nat.ne_of_gt (Nat.add_pos_left (Nat.pos_of_ne_zero hpos) _)
    constructor
    · rintro ⟨hreach, -⟩
      by_contra h1
      obtain ⟨d, h0, hm⟩ := exists_child ht.nonnull h1
      rw [← hcopy] at h0 hm
      have hr : Reaches (s'.tree new) (new + (a.val.ptr - old)) := hroot ▸ .root (hroot.trans_ne hne)
      obtain ⟨hle, hle'⟩ := hreach _ (.child d hr h0)
      obtain ⟨hge, hge'⟩ := hin _ hm
      rw [VmmState.tree_nodes] at hle hle'
      omega
    · intro h1
      obtain ⟨b, hb', -⟩ := eq_node_of_sole h1 (e := a.val) (mem_vals_node.mpr (.inr (.inl rfl)))
      obtain ⟨rfl, rfl, rfl⟩ := node.inj hb'
      exact movedTo_single hroot hcopy hinNew hne hb

/-- The kernel's range is in the part of memory for which `oneTable` has a table. -/
def kernelPages : RbTree := node ⟨.black, 0x1060, 0, 0xCC000000, 0x100000, 3⟩ nil nil

/-- The kernel's VMM is at 0x1000, the one to be moved at 0x2000. -/
def twoVmms (t : RbTree) : VmmState where
  nodes := lay (lay (fun _ => blankNode) 0 kernelPages) 0 t
  vmms := fun v => if v = 0x1000 then ⟨1, 0, 0, 0, addr kernelPages, 0x1030, 0xCC000000, 0xFFE00000⟩
    else ⟨1, 0, 0, 0, addr t, 0x2030, 0x10000, 0xC0000000⟩
  kernelVmm := 0x1000
  paging := oneTable

def oneRange : RbTree := node ⟨.black, 0x2060, 0, 0x10000, 0xC0000000, 3⟩ nil nil

def twoRanges : RbTree := node ⟨.black, 0x2060, 0, 0x20000, 0xBFFE0000, 3⟩ (node ⟨.red, 0x2080, 0, 0x10000, 0x1000, 3⟩ nil nil) nil

lemma twoVmms_transfer (hd : (ptrs t).Nodup) (hz : 0 ∉ ptrs t)
    (h₁ : (pageKalloc 5 (twoVmms t) 4096 0x3 0).toOption.map (fun q => (q.1, (ptrs t).map q.2.nodes, (q.2.vmms 0x2000).root)) =
      some (0xCC000000, (ptrs t).map (twoVmms t).nodes, addr t))
    (h₂ : (vmmTransferDynamic (· + ·) 5 (twoVmms t) 0xC0100004 0x2000 1).toOption.map Prod.fst = some 0xCC000000) :
    ∃ s₁ s', pageKalloc 5 (twoVmms t) 4096 0x3 0 = .ok (0xCC000000, s₁) ∧ Represents s₁.nodes (s₁.tree 0x2000) t ∧
      vmmTransferDynamic (· + ·) 5 (twoVmms t) 0xC0100004 0x2000 1 = .ok (0xCC000000, s') := by
  obtain ⟨⟨new, s₁⟩, hk, hs₁⟩ := exists_of_toOption_map h₁
  obtain ⟨⟨new', s'⟩, hv, hs'⟩ := exists_of_toOption_map h₂
  obtain ⟨rfl, hn, hr⟩ : new = 0xCC000000 ∧ _ ∧ _ := by simpa only [Prod.mk.injEq] using hs₁
  obtain rfl : new' = 0xCC000000 := hs'
  have hrep := represents_lay (lay (fun _ => blankNode) 0 kernelPages) hd hz
  have hout : Represents (s₁.tree 0x2000).nodes (s₁.tree 0x2000) t := hrep.outside hr (List.map_inj_left.mp hn)
  exact ⟨s₁, s', hk, hout, hv⟩

theorem vmmTransferDynamic_moves_iff_one : ∃ s', vmmTransferDynamic (· + ·) 5 (twoVmms oneRange) 0xC0100004 0x2000 1 =
    .ok (0xCC000000, s') ∧ (MovedTo (s'.tree 0xCC000000) 0xCC000000 (ranges oneRange) ↔ (ptrs oneRange).length = 1) := by
  obtain ⟨s₁, s', hk, hr, hv⟩ := twoVmms_transfer (t := oneRange) (by decide) (by decide) (by decide) (by decide)
  have hb : RedBlack oneRange := ⟨rfl, ⟨by decide, trivial, trivial⟩, 1, 0, rfl, rfl, rfl⟩
  have hs : Sorted oneRange := List.pairwise_singleton ..
  exact ⟨s', hv, vmmTransferDynamic_moves_iff hk hr hb hs (by decide) (by decide) (by decide) (by decide) (.inr (by decide)) hv⟩

/-- The root in the new page has its child in the old one. -/
theorem vmmTransferDynamic_moves_two : RedBlack twoRanges ∧ Sorted twoRanges ∧ (∀ p ∈ ptrs twoRanges, InPage 0x2000 p) ∧
    ∃ s₁ s', pageKalloc 5 (twoVmms twoRanges) 4096 0x3 0 = .ok (0xCC000000, s₁) ∧
      Represents s₁.nodes (s₁.tree 0x2000) twoRanges ∧
      vmmTransferDynamic (· + ·) 5 (twoVmms twoRanges) 0xC0100004 0x2000 1 = .ok (0xCC000000, s') ∧
      ¬ MovedTo (s'.tree 0xCC000000) 0xCC000000 (ranges twoRanges) := by
  have hb : RedBlack twoRanges := ⟨rfl, ⟨by decide, ⟨by decide, trivial, trivial⟩, trivial⟩, 1, 0, rfl, ⟨rfl, rfl⟩, rfl⟩
  have hs : Sorted twoRanges := by simp [Sorted, twoRanges]
  obtain ⟨s₁, s', hk, hr, hv⟩ := twoVmms_transfer (t := twoRanges) (by decide) (by decide) (by decide) (by decide)
  refine ⟨hb, hs, by decide, s₁, s', hk, hr, hv, fun hmoved => ?_⟩
  obtain ⟨hreach, -⟩ := hmoved
  obtain ⟨-, hroot, hnodes⟩ := vmmTransferDynamic_tree hk (by decide) hv
  rw [hr.root] at hroot
  replace hroot : (s'.tree 0xCC000000).root = 0xCC000060 := hroot.trans (by decide)
  have hchild : (s'.nodes 0xCC000060).child .left = 0x2080 := by
    rw [hnodes _ (by decide)]
    exact congrArg RbNode.left hr.rep.1
  have hself : Reaches (s'.tree 0xCC000000) 0xCC000060 := hroot ▸ .root (hroot.trans_ne (by decide))
  have hin := hreach _ (hself.child .left (hchild.trans_ne (by decide)))
  rw [VmmState.tree_nodes, hchild] at hin
  exact absurd hin (by decide)

end WordOS.Memory
