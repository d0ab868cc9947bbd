import WordOS.Memory.Vmm

/-! The address space that `create_process` makes: `create_new_pdptes` of `scheduler.c`, with the
functions of `vmm.c` that switch to it. -/

namespace WordOS.Memory

open Machine Utils

/-- The VMMs and the global `current_vmm`. -/
structure Spaces where
  vmm : VmmState
  currentVmm : ℕ

namespace Spaces

def withPaging (s : Spaces) (p : Paging) : Spaces := { s with vmm := { s.vmm with paging := p } }

def setVmm (s : Spaces) (v : ℕ) (x : Vmm) : Spaces :=
  { s with vmm := { s.vmm with vmms := Function.update s.vmm.vmms v x } }

end Spaces

/-- The PDPT is there once PAE is on. -/
def setCurrentVmm (s : Spaces) (newVmm : ℕ) : Spaces :=
  let s := { s with currentVmm := newVmm }
  let v := s.vmm.vmms newVmm
  if v.pdLow = 0 then s
  else
    let pdpt := Function.update s.vmm.paging.pdpt 0 (v.pdLow ||| 1)
    let pdpt := Function.update pdpt 1 (v.pdMid ||| 1)
    let pdpt := Function.update pdpt 2 (v.pdHigh ||| 1)
    s.withPaging { s.vmm.paging with pdpt := pdpt }

def paeAlloc (fuel : ℕ) (s : Spaces) (length flags phys : ℕ) : Exec (ℕ × Spaces) := do
  let (page, vmm) ← vmmPageAlloc fuel s.vmm s.currentVmm length flags phys true
  return (page, { s with vmm := vmm })

def paeKalloc (fuel : ℕ) (s : Spaces) (length flags phys : ℕ) : Exec (ℕ × Spaces) := do
  let (page, vmm) ← vmmPageAlloc fuel s.vmm s.vmm.kernelVmm length flags phys true
  return (page, { s with vmm := vmm })

def allocStack (fuel : ℕ) (s : Spaces) (processVmm : ℕ) : Exec (ℕ × Spaces) := do
  let s := { s with currentVmm := processVmm }
  let (stackTop, s) ← paeAlloc fuel s 0x1000 0x3 0
  return (u32 (stackTop + 0xFFF), s)

/-- A new page directory, mapped at `temp_page`, has its last entry name itself. -/
def mapPd (p : Paging) (clear : Bool) (phys : ℕ) : Exec Paging := do
  let p ← paeMmap p phys TEMP_PAGE_VIRT 0x3
  let p ← if clear then p.clear64 TEMP_PAGE_VIRT (4096 / 8) else pure p
  p.store64 (TEMP_PAGE_VIRT + 8 * 511) (phys ||| 1)

/-- The three directories one after the other; the last one is not cleared. -/
def mapPds (p : Paging) (physPdlow physPdmed physPdhigh : ℕ) : Exec Paging := do
  let p ← mapPd p true physPdlow
  let p ← mapPd p true physPdmed
  let p ← mapPd p false physPdhigh
  paeUnmap p TEMP_PAGE_VIRT

/-- `create_new_pdptes` as far as the fields of the new VMM, which is returned with the address of
its store page in memory. Without a store page, `create_vmm` follows the null page directory. -/
def recordPdptes (fuel : ℕ) (s : Spaces) : Exec (ℕ × ℕ × Spaces) := do
  let (physPdlow, pmm) ← allocPhysPage s.vmm.paging.pmm
  let (physPdmed, pmm) ← allocPhysPage pmm
  let (physPdhigh, pmm) ← allocPhysPage pmm
  let (vmmStorePhys, pmm) ← allocPhysPage pmm
  let s := s.withPaging { s.vmm.paging with pmm := pmm }
  let (vmmKspace, s) ← paeKalloc fuel s 4096 0x3 vmmStorePhys
  if vmmKspace = 0 then throw .fault
  let (newVmm, vmm) ← createVmm fuel s.vmm 0 0x10000 0xc0000000 vmmKspace
  let s := { s with vmm := vmm }
  let paging ← mapPds s.vmm.paging physPdlow physPdmed physPdhigh
  let s := s.withPaging paging
  let s := s.setVmm newVmm
    { s.vmm.vmms newVmm with pdLow := physPdlow, pdMid := physPdmed, pdHigh := physPdhigh }
  return (newVmm, vmmStorePhys, s)

/-- The store page at `kspace` is reached at `pspace` too. -/
def mirror (nodes : Ptr → RbNode) (kspace pspace : ℕ) : Ptr → RbNode := fun p =>
  if pspace ≤ p ∧ p < pspace + 4096 then nodes (p - pspace + kspace) else nodes p

/-- The rest of `create_new_pdptes`; the stack pointer is the one of the new context. -/
def enterPdptes (fuel : ℕ) (s : Spaces) (newVmm vmmStorePhys : ℕ) : Exec (ℕ × Spaces) := do
  let s := setCurrentVmm s newVmm
  let (vmmPspace, s) ← paeAlloc fuel s 4096 0x3 (u32 vmmStorePhys)
  let v := s.vmm.vmms newVmm
  let rootOffset := u32 (v.root + 2 ^ 32 - v.vmObjStoreAddr)
  let vmObjStoreAddr := u32 (vmmPspace + SIZEOF_VMM)
  let s := s.setVmm newVmm
    { v with vmObjStoreAddr := vmObjStoreAddr, root := u32 (vmObjStoreAddr + rootOffset) }
  let s := { s with vmm := { s.vmm with nodes := mirror s.vmm.nodes newVmm vmmPspace } }
  let (stack, s) ← allocStack fuel s newVmm
  return (u32 (stack + 2 ^ 32 - 0x20), s)

/-- What `create_process` does once the process is made. -/
def leavePdptes (s : Spaces) (parentVmm : ℕ) : Spaces :=
  if parentVmm = 0 then s else setCurrentVmm s parentVmm

/-- What `create_process` does to the memory of processes. -/
def createProcessSpace (fuel : ℕ) (s : Spaces) : Exec (ℕ × ℕ × Spaces) := do
  let parentVmm := s.currentVmm
  let (newVmm, vmmStorePhys, s) ← recordPdptes fuel s
  let (esp, s) ← enterPdptes fuel s newVmm vmmStorePhys
  return (newVmm, esp, leavePdptes s parentVmm)

end WordOS.Memory
