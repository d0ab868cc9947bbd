import WordOS.Lib.Bytes
import WordOS.Machine
import Mathlib.Data.List.Basic

/-! The array list of `arraylist.c`, in a block that grows. -/

namespace WordOS.Utils

open Machine Lib.Bytes

/-- What the array list asks of the heap. `size` is the size of the block at an address. -/
structure Allocator (H : Type) where
  size : H → ℕ → ℕ
  kalloc : H → Mem → ℕ → ℕ × H × Mem
  rekalloc : H → Mem → ℕ → ℕ → ℕ × H × Mem
  kalloc_ok : ∀ h m n, n < 2 ^ 31 → n ≤ size (kalloc h m n).2.1 (kalloc h m n).1 ∧ (kalloc h m n).1 + n ≤ 2 ^ 32
  rekalloc_ok : ∀ h m p n, n < 2 ^ 31 → n ≤ size (rekalloc h m p n).2.1 (rekalloc h m p n).1 ∧ (rekalloc h m p n).1 + n ≤ 2 ^ 32
  rekalloc_keeps : ∀ h m p n i, i < size h p → i < n → (rekalloc h m p n).2.2 ((rekalloc h m p n).1 + i) = m (p + i)

def SIZEOF_ARRAY_LIST : ℕ := 12

/-- The offset of `data`; the items lie there. -/
def DATA_OFFSET : ℕ := 8

/-- `al` is where the `struct array_list` lies. -/
structure ArrayList (H : Type) where
  heap : H
  mem : Mem
  al : ℕ

namespace ArrayList

variable {H : Type} (s : ArrayList H)

def dtSize : ℕ := read32 s.mem s.al
def count : ℕ := read16 s.mem (s.al + 4)
def maxCount : ℕ := read16 s.mem (s.al + 6)

def setCount (n : ℕ) : ArrayList H := { s with mem := write16 s.mem (s.al + 4) n }
def setMaxCount (n : ℕ) : ArrayList H := { s with mem := write16 s.mem (s.al + 6) n }

/-- The address of item `index`, from a sum of 64 bits. -/
def itemAddr (index : ℕ) : ℕ := u32 (s.al + DATA_OFFSET + u32 (index * s.dtSize))

end ArrayList

variable {H : Type} (A : Allocator H)

def createArrayList (h : H) (m : Mem) (dataTypeSize : ℕ) : ArrayList H :=
  let (list, h, m) := A.kalloc h m (dataTypeSize + SIZEOF_ARRAY_LIST)
  let m := memset m list 0 (dataTypeSize + SIZEOF_ARRAY_LIST)
  let m := write16 m (list + 6) 1
  ⟨h, write32 m list dataTypeSize, list⟩

/-- The branch of `al_add_item` where the block is full. -/
def alGrow (s : ArrayList H) : ArrayList H :=
  let newMax := s.maxCount * 2
  let newSize := u32 (newMax * s.dtSize + SIZEOF_ARRAY_LIST)
  let (newAl, h, m) := A.rekalloc s.heap s.mem s.al newSize
  (⟨h, m, newAl⟩ : ArrayList H).setMaxCount newMax

/-- `item` is what is read at the pointer. -/
def alAddItem (s : ArrayList H) (item : ℕ → BitVec 8) : ArrayList H :=
  let s := if s.count = s.maxCount then alGrow A s else s
  let s := { s with mem := copyIn s.mem (s.itemAddr s.count) item s.dtSize }
  s.setCount (s.count + 1)

def alGet (s : ArrayList H) (index : ℕ) : ℕ := if index > s.count then 0 else s.itemAddr index

/-- The loop of `al_delete_item` with `n` items to go. -/
def shiftItems (dtSize : ℕ) : ℕ → (indexStart : ℕ) → Mem → ℕ × Mem
  | 0, indexStart, m => (indexStart, m)
  | n + 1, indexStart, m => shiftItems dtSize n (indexStart + dtSize) (memcpy m indexStart (indexStart + dtSize) dtSize)

/-- The loop counts with an `int`. -/
def alDeleteItem (s : ArrayList H) (index : ℕ) : ArrayList H :=
  let (indexStart, m) := shiftItems s.dtSize (s.count - 1 - int32 index).toNat (alGet s index) s.mem
  let s := { s with mem := memset m indexStart 0 s.dtSize }
  s.setCount (s.count + 2 ^ 16 - 1)

end WordOS.Utils
