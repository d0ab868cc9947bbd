import WordOS.Memory.PdTables
import WordOS.Memory.VmmTree

/-! `transfer_pages_to_pae`: the kernel's page tables in the format of PAE. -/

namespace WordOS.Memory

open Machine

def PGSIZE : ℕ := 1024

def pageKalloc (fuel : ℕ) (s : VmmState) (length flags phys : ℕ) : Exec (ℕ × VmmState) :=
  vmmPageAlloc fuel s s.kernelVmm length flags phys false

/-- A write of 64 bits while PAE is off. -/
def Paging.storeWords (p : Paging) (v x : ℕ) : Exec Paging := do
  (← p.store32 v (u32 x)).store32 (v + 4) (x / 2 ^ 32)

/-- The loops that copy a half of a page table, from entry `j` on with `n` to go. -/
def copyEntries (pt newPt : ℕ) : ℕ → (j : ℕ) → Paging → Exec Paging
  | 0, _, p => .ok p
  | n + 1, j, p => do
    let entry ← p.load32 (pt + 4 * j)
    copyEntries pt newPt n (j + 1) (← p.storeWords (newPt + 8 * j) entry)

/-- A new table with the 512 entries from `pt` on, and its physical address. -/
def transferHalf (fuel : ℕ) (s : VmmState) (pt : ℕ) : Exec (ℕ × VmmState) := do
  let (newPtPhys, pmm) ← allocPhysPage s.paging.pmm
  let (newPt, s) ← pageKalloc fuel { s with paging := { s.paging with pmm := pmm } } PGSIZE 0x3 (u32 newPtPhys)
  let paging ← copyEntries pt newPt 512 0 s.paging
  return (newPtPhys, { s with paging := paging })

/-- The body of the outer loop where the entry of the directory is present. The second entry of the
new directory has no flags. -/
def transferTable (fuel : ℕ) (s : VmmState) (newPd i : ℕ) : Exec VmmState := do
  let pt := 0xffc00000 + i * 0x1000
  let (newPtPhys, s) ← transferHalf fuel s pt
  let paging ← s.paging.storeWords (newPd + 8 * ((i - 768) * 2)) (newPtPhys ||| 3)
  let (newPtPhys, s) ← transferHalf fuel { s with paging := paging } (pt + 4 * 512)
  let paging ← s.paging.storeWords (newPd + 8 * ((i - 768) * 2 + 1)) newPtPhys
  return { s with paging := paging }

/-- The outer loop, from entry `i` on with `n` to go. -/
def transferTables (fuel oldRoot newPd : ℕ) : ℕ → (i : ℕ) → VmmState → Exec VmmState
  | 0, _, s => .ok s
  | n + 1, i, s => do
    let s ← if Present (s.paging.phys oldRoot i) then transferTable fuel s newPd i else pure s
    transferTables fuel oldRoot newPd n (i + 1) s

def transferPagesToPae (fuel : ℕ) (s : VmmState) (currentVmm : ℕ) : Exec (ℕ × VmmState) := do
  let (newPdPhys, pmm) ← allocPhysPage s.paging.pmm
  let (newPd, s) ← pageKalloc fuel { s with paging := { s.paging with pmm := pmm } } PGSIZE 0x3 (u32 newPdPhys)
  let s ← transferTables fuel (s.vmms currentVmm).rootPd newPd 256 768 s
  let paging ← s.paging.storeWords (newPd + 8 * 511) (newPdPhys ||| 1)
  return (newPdPhys, { s with paging := paging })

end WordOS.Memory
