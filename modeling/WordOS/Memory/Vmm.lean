import WordOS.Memory.Paging
import WordOS.Utils.RbTree

/-! The virtual memory manager of `vmm.c`: a tree of free ranges for each address space. -/

namespace WordOS.Memory

open Machine Utils Lib.ColoredTree

/-- `struct vmm`, less `root_pdpt`, which is the same in all of them; `rootPd` is the frame of the
page directory. -/
structure Vmm where
  rootPd : ℕ
  pdLow : ℕ
  pdMid : ℕ
  pdHigh : ℕ
  root : Ptr
  vmObjStoreAddr : ℕ
  low : ℕ
  high : ℕ

def SIZEOF_VMM : ℕ := 48

def TEMP_PAGE_VIRT : ℕ := 0xFF000000

/-- A slot of a store page after `memset`. -/
def blankNode : RbNode := ⟨0, 0, 0, 0, .red, 0, 0, 0⟩

/-- The VMMs are found by the addresses of their structs. -/
structure VmmState where
  nodes : Ptr → RbNode
  vmms : ℕ → Vmm
  kernelVmm : ℕ
  paging : Paging

namespace VmmState

/-- The nodes and the cell `root` of the VMM at `v`. -/
def tree (s : VmmState) (v : ℕ) : RbState := ⟨s.nodes, (s.vmms v).root⟩

def setTree (s : VmmState) (v : ℕ) (t : RbState) : VmmState :=
  { s with nodes := t.nodes, vmms := Function.update s.vmms v { s.vmms v with root := t.root } }

end VmmState

/-- Where `alloc_node_obj` starts to look for a slot. -/
def slotsOf (s : VmmState) (v : ℕ) : Ptr := (s.vmms v).vmObjStoreAddr + SIZEOF_VMM

def vmmMakeNode (fuel : ℕ) (s : VmmState) (v base size id : ℕ) : Exec VmmState := do
  let (_, t) ← makeNode fuel (s.tree v) (slotsOf s v) base size id
  return s.setTree v t

/-- The memory of the nodes and the VMMs after `memset` of a store page and the writes to its struct. -/
def storeVmm (s : VmmState) (rootPd low high storePage : ℕ) : VmmState :=
  { s with
    nodes := fun p => if storePage ≤ p ∧ p < storePage + 4096 then blankNode else s.nodes p
    vmms := Function.update s.vmms storePage
      ⟨rootPd, 0, 0, 0, 0, storePage + SIZEOF_VMM, bytePgroundup low, high⟩ }

def createVmm (fuel : ℕ) (s : VmmState) (rootPd low high storePage : ℕ) : Exec (ℕ × VmmState) := do
  let (storePage, s) ←
    if storePage = 0 then do
      let (phys, pmm) ← allocPhysPage s.paging.pmm
      let paging ← memoryMap { s.paging with pmm := pmm } rootPd phys TEMP_PAGE_VIRT 0x3
      pure (TEMP_PAGE_VIRT, { s with paging := paging })
    else pure (storePage, s)
  let s := storeVmm s rootPd low high storePage
  let s ← vmmMakeNode fuel s storePage (s.vmms storePage).low (s.vmms storePage).high 0
  return (storePage, s)

/-- The search of `vmm_page_alloc` from `current` on. -/
def bestFit : ℕ → RbState → (length : ℕ) → (current best : Ptr) → Exec Ptr
  | 0, _, _, _, _ => .error .fuel
  | fuel + 1, s, length, current, best =>
    if current = 0 then .ok best
    else do
      let n ← s.load current
      if n.size = length then return current
      else if n.size ≤ length then bestFit fuel s length n.right best
      else bestFit fuel s length n.left current

/-- What `vmm_page_alloc` does to the free trees; `none` where it returns NULL. The root that
`delete_node` is given is the one of `kernel_vmm`. -/
def vmmTakeRange (fuel : ℕ) (s : VmmState) (cvmm length : ℕ) : Exec (Option ℕ × VmmState) := do
  if (s.vmms cvmm).root = 0 then return (none, s)
  let best ← bestFit fuel (s.tree cvmm) length (s.vmms cvmm).root 0
  if best = 0 then return (none, s)
  let b ← (s.tree cvmm).load best
  let s ←
    if b.size > length then vmmMakeNode fuel s cvmm (u32 (b.base + length)) (b.size - length) 0
    else pure s
  let base := (← (s.tree cvmm).load best).base
  let t ← deleteNode fuel (s.tree s.kernelVmm) best
  return (some base, s.setTree s.kernelVmm t)

/-- The loops of `vmm_page_alloc` that map its range, from offset `i` on with `n` pages to go. -/
def mapPages (rootPd base phys flags : ℕ) (paeEnabled : Bool) : ℕ → (i : ℕ) → Paging → Exec Paging
  | 0, _, p => .ok p
  | n + 1, i, p => do
    let (frame, p) ←
      if phys = 0 then do
        let (frame, pmm) ← allocPhysPage p.pmm
        pure (frame, { p with pmm := pmm })
      else pure (pageOf phys + i, p)
    let p ←
      if paeEnabled then paeMmap p frame (u32 (base + i)) flags
      else memoryMap p rootPd frame (u32 (base + i)) flags
    mapPages rootPd base phys flags paeEnabled n (i + 4096) p

def vmmPageAlloc (fuel : ℕ) (s : VmmState) (cvmm length flags phys : ℕ) (paeEnabled : Bool) : Exec (ℕ × VmmState) := do
  let length := bytePgroundup (u32 length)
  match ← vmmTakeRange fuel s cvmm length with
  | (none, s) => return (0, s)
  | (some base, s) =>
    let paging ← mapPages (s.vmms cvmm).rootPd base phys flags paeEnabled (length / 4096) 0 s.paging
    return (u32 (base + phys % 4096), { s with paging := paging })

/-- The present check of `vmm_page_free`, with the physical address of the table as a virtual one. -/
def presentCheck (s : VmmState) (cvmm addr : ℕ) : Exec Bool := do
  let pde := s.paging.phys (s.vmms cvmm).rootPd (u32 addr / 2 ^ 22)
  let pageTable := pde - pde % 2 ^ 10
  if pageTable = 0 then return false
  let page ← s.paging.load32 (u32 (pageTable + 4 * (u32 addr / 2 ^ 22 * 2 ^ 10)))
  return Present page

def vmmPageFree (fuel : ℕ) (s : VmmState) (cvmm addr : ℕ) : Exec VmmState := do
  if ← presentCheck s cvmm addr then
    let s ← vmmMakeNode fuel s cvmm (u32 addr) 4096 0
    let paging ← memoryUnmap s.paging (s.vmms cvmm).rootPd addr
    return { s with paging := paging }
  else return s

end WordOS.Memory
