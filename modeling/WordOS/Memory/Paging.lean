import WordOS.Memory.Pmm

/-! Page tables: the functions of `paging.c`, on a physical memory reached through the tables themselves. -/

namespace WordOS.Memory

open Machine

/-- Physical memory, by frames of 1024 words of 32 bits. -/
abbrev Phys := ℕ → ℕ → ℕ

namespace Phys

def write32 (m : Phys) (f i v : ℕ) : Phys := Function.update m f (Function.update (m f) i (u32 v))

def read64 (m : Phys) (f i : ℕ) : ℕ := m f (2 * i) + 2 ^ 32 * m f (2 * i + 1)

def write64 (m : Phys) (f i v : ℕ) : Phys := (m.write32 f (2 * i) v).write32 f (2 * i + 1) (v / 2 ^ 32)

end Phys

/-- `entry & 1` -/
abbrev Present (entry : ℕ) : Prop := entry % 2 = 1

/-- The frame an entry of a table names. -/
def frameOf (entry : ℕ) : ℕ := entry / 4096 % 2 ^ 40

/-- `x & ~0xFFF` -/
def pageOf (x : ℕ) : ℕ := x - x % 4096

def bytePgroundup (x : ℕ) : ℕ := pageOf (u32 (x + 4095))

/-- `cr3` is the frame of the page directory in use; with PAE, `pdpt` holds the four entries of
the table in use, the one `root_pdpt` points to. -/
structure Paging where
  phys : Phys
  pmm : Pmm
  cr3 : ℕ
  pdpt : ℕ → ℕ
  maxBitExtension : ℕ

namespace Paging

def walk32 (s : Paging) (v : ℕ) : Option ℕ :=
  let pde := s.phys s.cr3 (v / 2 ^ 22)
  if Present pde then
    let pte := s.phys (frameOf pde) (v / 2 ^ 12 % 2 ^ 10)
    if Present pte then some (frameOf pte) else none
  else none

def walk64 (s : Paging) (v : ℕ) : Option ℕ :=
  let pdpte := s.pdpt (v / 2 ^ 30)
  if Present pdpte then
    let pde := s.phys.read64 (frameOf pdpte) (v / 2 ^ 21 % 2 ^ 9)
    if Present pde then
      let pte := s.phys.read64 (frameOf pde) (v / 2 ^ 12 % 2 ^ 9)
      if Present pte then some (frameOf pte) else none
    else none
  else none

def load32 (s : Paging) (v : ℕ) : Exec ℕ :=
  match s.walk32 v with
  | some f => .ok (s.phys f (v % 2 ^ 12 / 4))
  | none => .error .fault

def store32 (s : Paging) (v x : ℕ) : Exec Paging :=
  match s.walk32 v with
  | some f => .ok { s with phys := s.phys.write32 f (v % 2 ^ 12 / 4) x }
  | none => .error .fault

def load64 (s : Paging) (v : ℕ) : Exec ℕ :=
  match s.walk64 v with
  | some f => .ok (s.phys.read64 f (v % 2 ^ 12 / 8))
  | none => .error .fault

def store64 (s : Paging) (v x : ℕ) : Exec Paging :=
  match s.walk64 v with
  | some f => .ok { s with phys := s.phys.write64 f (v % 2 ^ 12 / 8) x }
  | none => .error .fault

/-- `memset` with zero over `n` words. -/
def clear32 (s : Paging) (v : ℕ) : ℕ → Exec Paging
  | 0 => .ok s
  | n + 1 => do clear32 (← s.store32 v 0) (v + 4) n

/-- `memset` with zero over `n` double words. -/
def clear64 (s : Paging) (v : ℕ) : ℕ → Exec Paging
  | 0 => .ok s
  | n + 1 => do clear64 (← s.store64 v 0) (v + 8) n

end Paging

def RECURSIVE_ADDR : ℕ := 0xFFC00000

/-- A page directory is given by the frame it lies in. -/
def createNewPt (s : Paging) (rootPd pdIndex recursiveAddr : ℕ) : Exec Paging := do
  let (newPt, pmm) ← allocPhysPage s.pmm
  let s := { s with pmm := pmm, phys := s.phys.write32 rootPd pdIndex (u32 newPt ||| 3) }
  s.clear32 (recursiveAddr ||| pdIndex * 2 ^ 12) (1024 / 4)

def memoryMap (s : Paging) (rootPd phys virt flags : ℕ) : Exec Paging := do
  let pdIndex := u32 virt / 2 ^ 22
  let ptIndex := u32 virt / 2 ^ 12 % 2 ^ 10
  let s ← if Present (s.phys rootPd pdIndex) then .ok s else createNewPt s rootPd pdIndex RECURSIVE_ADDR
  let pageTable := RECURSIVE_ADDR + pdIndex * 4096
  if u32 phys % 2 ^ 10 ≠ 0 then throw (.panic "PHYSICAL ADDRESS NOT PAGE ALIGNED\n")
  s.store32 (pageTable + 4 * ptIndex) (u32 phys ||| flags)

def memoryUnmap (s : Paging) (rootPd virt : ℕ) : Exec Paging := do
  let pdIndex := u32 virt / 2 ^ 22
  let ptIndex := u32 virt / 2 ^ 12 % 2 ^ 10
  let pageTable := RECURSIVE_ADDR ||| pdIndex * 2 ^ 12
  if s.phys rootPd pdIndex = 0 then return s
  else if u32 virt % 2 ^ 10 ≠ 0 then return s
  else
    let phys := pageOf (← s.load32 (pageTable + 4 * ptIndex))
    let pmm ← clearFrame s.pmm (physicalToFrame phys)
    { s with pmm := pmm }.store32 (pageTable + 4 * ptIndex) 0

section

variable (virt : ℕ)

/-! The index arithmetic that the PAE functions share. -/

def pdpteOf : ℕ := u32 virt / 2 ^ 30
def pdIndexOf : ℕ := u32 virt / 2 ^ 21 % 2 ^ 9
def ptIndexOf : ℕ := u32 virt / 2 ^ 12 % 2 ^ 9

def recursiveAddrOf (pdpte : ℕ) : ℕ := u32 (pdpte * 2 ^ 30 + 0x3fe00000)

/-- `pt`, by the indices. -/
def ptWindow (pdpte pdIndex : ℕ) : ℕ := recursiveAddrOf pdpte ||| pdIndex * 2 ^ 12

/-- `pd` -/
def pdWindow (pdpte : ℕ) : ℕ := recursiveAddrOf pdpte ||| 1023 * 2 ^ 12

end

def getPhysFromVirt (s : Paging) (virt : ℕ) : Exec ℕ := do
  let pd ← s.load64 (pdWindow (pdpteOf virt) + 8 * pdIndexOf virt)
  if ¬ Present pd then return 0
  return pageOf (← s.load64 (ptWindow (pdpteOf virt) (pdIndexOf virt) + 8 * ptIndexOf virt))

/-- Called with the entry of the PDPT present: without it the read of the directory in
`pae_mmap` has faulted. -/
def createNewPaePt (s : Paging) (pdptIndex pdIndex recursiveAddr : ℕ) : Exec Paging := do
  if ¬ Present (s.pdpt pdptIndex) then throw .fault
  let pageDirectory := recursiveAddr ||| 511 * 2 ^ 12
  let (newPtPhys, pmm) ← allocPhysPage s.pmm
  let s ← { s with pmm := pmm }.store64 (pageDirectory + 8 * pdIndex) (newPtPhys ||| 3)
  s.clear64 (recursiveAddr ||| pdIndex * 2 ^ 12) (4096 / 8)

def paeMmap (s : Paging) (phys virt flags : ℕ) : Exec Paging := do
  let pdpte := pdpteOf virt
  let pdIndex := pdIndexOf virt
  let ptIndex := ptIndexOf virt
  if phys / 2 ^ s.maxBitExtension ≠ 0 then throw (.panic "Physical address past possible value\n")
  if phys % 2 ^ 10 ≠ 0 then throw (.panic "Physical address not properly aligned\n")
  let pd ← s.load64 (pdWindow pdpte + 8 * pdIndex)
  let s ← if Present pd then .ok s else createNewPaePt s pdpte pdIndex (recursiveAddrOf pdpte)
  let s ← s.store64 (ptWindow pdpte pdIndex + 8 * ptIndex) 0
  s.store64 (ptWindow pdpte pdIndex + 8 * ptIndex) (phys ||| flags)

def paeUnmap (s : Paging) (virt : ℕ) : Exec Paging := do
  let pt := ptWindow (pdpteOf virt) (pdIndexOf virt)
  let phys := u32 (pageOf (← s.load64 (pt + 8 * ptIndexOf virt)))
  let pmm ← clearFrame s.pmm (physicalToFrame phys)
  { s with pmm := pmm }.store64 (pt + 8 * ptIndexOf virt) 0

end WordOS.Memory
