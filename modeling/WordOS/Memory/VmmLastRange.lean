import WordOS.Memory.VmmOwnership
import WordOS.Memory.VmmTakeFrame
import WordOS.Utils.RbDeleteLeaf

/-! The last free range of a VMM cannot be taken: `delete_node` follows the missing parent of the only node. -/

namespace WordOS.Memory

open Machine BinaryTree Utils Lib.Zipper Lib.ColoredTree

variable {rest : Ptr → RbNode} {s : VmmState} {t : RbTree} {a : Cell Entry} {e : Entry} {length flags phys fuel : ℕ} {pae : Bool}

lemma deleteNode_only (h : Represents rest (s.tree s.kernelVmm) (node a nil nil)) (hf : 0 < fuel) :
    deleteNode fuel (s.tree s.kernelVmm) a.val.ptr = .error .fault := by
  have hn : (s.tree s.kernelVmm).nodes a.val.ptr = _ := h.nodes_eq (c := []) (d := .left) (a := a)
  obtain ⟨fuel, rfl⟩ : ∃ n, fuel = n + 1 := ⟨fuel - 1, by omega⟩
  exact deleteNode_sole (h.ptr_ne_zero (c := []) (d := .left)) (by rw [hn]; rfl) (by rw [hn]; rfl) (by rw [hn]; rfl)

lemma vmmPageAlloc_only (h : Represents rest (s.tree s.kernelVmm) (node a nil nil)) (hf : 1 < fuel)
    (hl : bytePgroundup (u32 length) = a.val.size) : vmmPageAlloc fuel s s.kernelVmm length flags phys pae = .error .fault := by
  have hroot : (s.vmms s.kernelVmm).root = a.val.ptr := h.root
  have hz : a.val.ptr ≠ 0 := h.ptr_ne_zero (c := []) (d := .left)
  have hload : (s.tree s.kernelVmm).load a.val.ptr = _ := h.load (c := []) (d := .left) (a := a)
  have hbest : bestFit fuel (s.tree s.kernelVmm) a.val.size a.val.ptr 0 = .ok a.val.ptr := by
    obtain ⟨fuel, rfl⟩ : ∃ n, fuel = n + 1 := ⟨fuel - 1, by omega⟩
    simp only [bestFit, if_neg hz, hload, ok_bind, record_size, if_true, pure_eq]
  have htake : vmmTakeRange fuel s s.kernelVmm a.val.size = .error .fault := by
    rw [vmmTakeRange_dropRange, hroot, if_neg hz, hbest, ok_bind, if_neg hz, hload, ok_bind, record_size, if_neg (lt_irrefl _),
      dropRange, hload, ok_bind, deleteNode_only h (by omega)]
    rfl
  rw [vmmPageAlloc]
  simp only [hl, htake, error_bind]

/-- `delete_node` comes back exactly if the tree has another node, and `vmm_page_alloc` of the last free range does not. -/
theorem deleteNode_completes_iff (h : Represents rest (s.tree s.kernelVmm) t) (hb : RedBlack t) (he : e ∈ vals t)
    (hf : 2 * (ptrs t).length < fuel) :
    ((∃ u, deleteNode fuel (s.tree s.kernelVmm) e.ptr = .ok u ∧ ((ptrs t).length = 1 → u.root = 0)) ↔ 2 ≤ (ptrs t).length) ∧
      ((ptrs t).length = 1 → ∀ length flags phys pae, bytePgroundup (u32 length) = e.size →
        vmmPageAlloc fuel s s.kernelVmm length flags phys pae = .error .fault) := by
  have hpos : 0 < (ptrs t).length := List.length_pos_of_mem (List.mem_map_of_mem he)
  refine ⟨⟨fun ⟨u, hu, _⟩ => ?_, fun h2 => ?_⟩, fun h1 length flags phys pae hl => ?_⟩
  · by_contra h2
    obtain ⟨a, rfl, rfl⟩ := eq_node_of_sole (show (ptrs t).length = 1 by omega) he
    rw [deleteNode_only h (by omega)] at hu
    cases hu
  · obtain ⟨a, ha, rfl⟩ := List.mem_map.mp he
    obtain ⟨c, l, r, rfl⟩ := exists_path ha
    obtain ⟨u, hu⟩ := h.deleteNode_completes hb h2 hf
    exact ⟨u, hu, fun h1 => by omega⟩
  · obtain ⟨a, rfl, rfl⟩ := eq_node_of_sole h1 he
    exact vmmPageAlloc_only h (by omega) hl

theorem deleteNode_completes_iff_two :
    let s : VmmState := ⟨lay emptyStore 0 threePages, fun _ => ⟨1, 0, 0, 0, 96, 0x1030, 0, 0⟩, 0x1000, oneTable⟩
    ((∃ u, deleteNode 7 (s.tree 0x1000) 64 = .ok u ∧ ((ptrs threePages).length = 1 → u.root = 0)) ↔ 2 ≤ (ptrs threePages).length) ∧
      ((ptrs threePages).length = 1 → ∀ length flags phys pae, bytePgroundup (u32 length) = 4096 →
        vmmPageAlloc 7 s 0x1000 length flags phys pae = .error .fault) :=
  deleteNode_completes_iff (s := ⟨lay emptyStore 0 threePages, fun _ => ⟨1, 0, 0, 0, 96, 0x1030, 0, 0⟩, 0x1000, oneTable⟩)
    (e := ⟨64, 0, 0x1000, 4096, 3⟩) (represents_lay emptyStore (t := threePages) (by decide) (by decide)) threePages_redBlack
    (by decide) (by decide)

theorem vmmPageAlloc_last_range : deleteNode 3 (freshKernel.tree 0x1000) 0x1060 = .error .fault ∧
    vmmPageAlloc 3 freshKernel 0x1000 0xFFE00000 3 0x5000 false = .error .fault := by
  have h : Represents _ (freshKernel.tree freshKernel.kernelVmm) firstRange := freshKernel_holds.tree
  exact ⟨deleteNode_only h (by decide), vmmPageAlloc_only h (by decide) (by decide)⟩

end WordOS.Memory
