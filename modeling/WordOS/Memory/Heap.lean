import WordOS.Machine
import WordOS.Lib.Bytes

/-! The kernel heap of `heap.c`: blocks with headers, laid out in one region of memory. -/

namespace WordOS.Memory

open Machine Lib.Bytes

def HEAP_USED : BitVec 8 := 1
def HEAP_FREE : BitVec 8 := 0

def HEAP_START_SIZE : ℕ := 40960

def SIZEOF_MEM_HEADER : ℕ := 16

def HEAP_MIN_SPLIT_SIZE : ℕ := 0x20 + SIZEOF_MEM_HEADER

structure MemHeader where
  size : ℕ
  status : BitVec 8
  prev : ℕ
  next : ℕ
  deriving DecidableEq

def load (m : Mem) (p : ℕ) : MemHeader :=
  ⟨read32 m p, m (p + 4), read32 m (p + 8), read32 m (p + 12)⟩

def setSize (m : Mem) (p v : ℕ) : Mem := write32 m p v
def setStatus (m : Mem) (p : ℕ) (v : BitVec 8) : Mem := Function.update m (p + 4) v
def setPrev (m : Mem) (p v : ℕ) : Mem := write32 m (p + 8) v
def setNext (m : Mem) (p v : ℕ) : Mem := write32 m (p + 12) v

structure Heap where
  mem : Mem
  heapStart : ℕ
  curHeapPos : ℕ

/-- `heapStart` is what `page_kalloc` returns. -/
def initHeap (m : Mem) (heapStart : ℕ) : Heap :=
  ⟨fun a => if heapStart ≤ a ∧ a < heapStart + HEAP_START_SIZE then 0 else m a, heapStart, heapStart⟩

/-- `(0x20 - 1 + size) & ~(0x20 - 1)` -/
def alignSize (size : ℕ) : ℕ :=
  u32 (0x20 - 1 + size) - u32 (0x20 - 1 + size) % 0x20

/-- The remainder of `curNode` becomes a block of its own. -/
def splitBlock (m : Mem) (curNode size : ℕ) : Mem :=
  let splitNode := u32 (curNode + size + SIZEOF_MEM_HEADER)
  let m := setStatus m splitNode HEAP_FREE
  let m := setSize m splitNode ((load m curNode).size - size - SIZEOF_MEM_HEADER)
  let m := setNext m splitNode (load m curNode).next
  let m := setPrev m splitNode (load m curNode).prev
  let m := setNext m curNode splitNode
  setSize m curNode size

def takeNode (m : Mem) (curNode pastNode size : ℕ) : Mem :=
  let m := if (load m curNode).size - size ≥ HEAP_MIN_SPLIT_SIZE then splitBlock m curNode size else m
  let m := setStatus m curNode HEAP_USED
  setPrev m curNode pastNode

def appendNode (s : Heap) (pastNode size : ℕ) : Heap :=
  let curNode := s.curHeapPos
  let m := setPrev s.mem curNode pastNode
  let m := if pastNode ≠ 0 then setNext m pastNode curNode else m
  let m := setSize m curNode size
  let m := setStatus m curNode HEAP_USED
  { s with mem := m, curHeapPos := u32 (curNode + (load m curNode).size + SIZEOF_MEM_HEADER) }

/-- `kalloc` from `curNode` on. -/
def kallocFrom : ℕ → Heap → (size curNode pastNode : ℕ) → Exec (ℕ × Heap)
  | 0, _, _, _, _ => .error .fuel
  | fuel + 1, s, size, curNode, pastNode =>
    if curNode < s.curHeapPos then
      if (load s.mem curNode).size ≥ size ∧ (load s.mem curNode).status = HEAP_FREE then
        .ok (u32 (curNode + SIZEOF_MEM_HEADER), { s with mem := takeNode s.mem curNode pastNode size })
      else
        kallocFrom fuel s size (u32 (curNode + ((load s.mem curNode).size + SIZEOF_MEM_HEADER))) curNode
    else
      .ok (u32 (s.curHeapPos + SIZEOF_MEM_HEADER), appendNode s pastNode size)

def kalloc (fuel : ℕ) (s : Heap) (size : ℕ) : Exec (ℕ × Heap) :=
  kallocFrom fuel s (alignSize size) s.heapStart 0

/-- `node` takes in the block behind it. -/
def mergeNext (m : Mem) (node nodeNext : ℕ) : Mem :=
  let m := setSize m node (u32 ((load m node).size + ((load m nodeNext).size + SIZEOF_MEM_HEADER)))
  let m := setSize m nodeNext 0
  setNext m node (load m nodeNext).next

/-- The block before takes in `node`. -/
def mergePrev (m : Mem) (node nodePrev : ℕ) : Mem :=
  let m := setSize m nodePrev (u32 ((load m nodePrev).size + ((load m node).size + SIZEOF_MEM_HEADER)))
  let m := setSize m node 0
  let m := setPrev m node 0
  let m := setNext m nodePrev (load m node).next
  if (load m node).next ≠ 0 then
    let m := setPrev m (load m node).next nodePrev
    setNext m node 0
  else m

def joinNext (m : Mem) (node nodeNext : ℕ) : Mem :=
  if nodeNext ≠ 0 ∧ (load m nodeNext).status = HEAP_FREE then mergeNext m node nodeNext else m

def joinPrev (m : Mem) (node nodePrev : ℕ) : Mem :=
  if nodePrev ≠ 0 ∧ (load m nodePrev).status = HEAP_FREE then mergePrev m node nodePrev else m

def kfree (s : Heap) (mem : ℕ) : Heap :=
  let node := mem - SIZEOF_MEM_HEADER
  let m := setStatus s.mem node HEAP_FREE
  let nodeNext := (load m node).next
  let nodePrev := (load m node).prev
  { s with mem := joinPrev (joinNext m node nodeNext) node nodePrev }

/-- `node` grows into the free block behind it, or gives a part of itself to it. -/
def growNode (m : Mem) (node nodeNext size : ℕ) : Mem :=
  let oldSize := (load m node).size
  let m := setSize m node size
  if u32 ((load m nodeNext).size + oldSize) = size then
    let m := setNext m node (load m nodeNext).next
    memset m nodeNext 0 (u32 ((load m nodeNext).size + SIZEOF_MEM_HEADER))
  else
    let newNext := u32 (node + (load m node).size + SIZEOF_MEM_HEADER)
    let m := setStatus m newNext HEAP_FREE
    let m := setSize m newNext (u32 (u32 ((load m nodeNext).size + oldSize) + 2 ^ 32 - size))
    let m := setNext m newNext (load m (load m node).next).next
    let m := setPrev m newNext node
    setNext m node newNext

/-- The block moves to a new place; the label `free_memory`. -/
def moveNode (fuel : ℕ) (s : Heap) (ptr size : ℕ) : Exec (ℕ × Heap) := do
  let (newAddr, t) ← kalloc fuel s size
  let t := { t with mem := memcpy t.mem newAddr ptr (load t.mem (ptr - SIZEOF_MEM_HEADER)).size }
  return (newAddr, kfree t ptr)

def rekalloc (fuel : ℕ) (s : Heap) (ptr size : ℕ) : Exec (ℕ × Heap) :=
  let size := alignSize size
  let node := ptr - SIZEOF_MEM_HEADER
  let nodeNext := (load s.mem node).next
  if nodeNext = 0 then moveNode fuel s ptr size
  else if (load s.mem nodeNext).status = HEAP_FREE then
    if u32 ((load s.mem nodeNext).size + (load s.mem node).size) ≥ size then
      .ok (u32 (node + SIZEOF_MEM_HEADER), { s with mem := growNode s.mem node nodeNext size })
    else .ok (0, s)
  else moveNode fuel s ptr size

end WordOS.Memory
