import WordOS.Lib.Branching
import WordOS.Lib.Bytes
import WordOS.Machine

/-! `brute_force` of `pci.c`: the recursion over the buses of the memory mapped configuration space. -/

namespace WordOS.Kernel.Pci

open Machine Lib.Bytes Lib.Branching

/-- `struct MMECS`, with the memory that the configuration space is part of. -/
structure Mmecs where
  mem : Mem
  baseAddr : ℕ
  lt : baseAddr < 2 ^ 64
  aligned : baseAddr % 4096 = 0

/-- A page that is mapped: what is read through a pointer to `virt` is at `phys`. -/
structure Page where
  virt : ℕ
  phys : ℕ
  deriving DecidableEq

/-! Fields of `struct PCIDevHeader` at `a`. -/

section

variable (m : Mem) (a : ℕ)

def vendorId : ℕ := read16 m a

def progIF : ℕ := (m (a + 0x09)).toNat

def subClass : ℕ := (m (a + 0x0A)).toNat

def classCode : ℕ := (m (a + 0x0B)).toNat

def headerType : ℕ := (m (a + 0x0E)).toNat

/-- `SecondaryBusNum` where `struct PCIDevType1` has it, behind `SubordinateBusNum`. -/
def secondaryBusNum : ℕ := (m (a + 0x1A)).toNat

end

inductive Event
  | paeMmap (phys virt : ℕ)
  | paeUnmap (virt : ℕ)
  | bruteForce (bus device secondary : ℕ)
  | handleDevice (header : Page)
  deriving DecidableEq

/-- The static variables of `pci.c`, and the calls that were made. -/
structure Scan where
  baseVirt : ℕ
  ahciAddr : Option Page
  events : List Event

namespace Scan

def start : Scan := ⟨0xd0000000, none, []⟩

def call (s : Scan) (e : Event) : Scan := { s with events := s.events ++ [e] }

def paeMmap (s : Scan) (phys virt : ℕ) : Exec Scan := do
  if phys % 0x400 ≠ 0 then throw (.panic "Physical address not properly aligned\n")
  return s.call (.paeMmap phys virt)

end Scan

section

variable (config : Mmecs)

def handleDevice (header : Page) (s : Scan) : Scan :=
  if classCode config.mem header.phys = 0x1 ∧ subClass config.mem header.phys = 0x6 ∧ progIF config.mem header.phys = 0x1 then
    { s with ahciAddr := some header }
  else s

/-- `base`, a variable of 32 bits. -/
def slotBase (bus device : ℕ) : ℕ := u32 (config.baseAddr + (bus <<< 20 ||| device <<< 15))

/-- One pass of the loop; `recurse` is the call for the bus behind a bridge. -/
def bruteForceSlot (recurse : ℕ → Scan → Exec Scan) (bus : ℕ) (s : Scan) (device : ℕ) : Exec Scan := do
  let base := slotBase config bus device
  let header : Page := ⟨s.baseVirt, base⟩
  let s ← s.paeMmap base s.baseVirt
  let s := { s with baseVirt := u32 (s.baseVirt + 4096) }
  if vendorId config.mem base = 0xffff then
    return s.call (.paeUnmap (u32 (s.baseVirt + 2 ^ 32 - 4096)))
  else if headerType config.mem base ≠ 0 then
    let secondary := secondaryBusNum config.mem base
    if secondary = 0 then return s
    else recurse secondary (s.call (.bruteForce bus device secondary))
  else
    return handleDevice config header (s.call (.handleDevice header))

/-- `n` bounds the recursion. -/
def bruteForce : (n : ℕ) → (bus : ℕ) → (s : Scan) → Exec Scan
  | 0, _, _ => .error .fuel
  | n + 1, bus, s => (List.range 32).foldlM (bruteForceSlot config (bruteForce n) bus) s

/-! What the configuration space says by the specification of PCI. -/

/-- Function 0 of the device. -/
def slotAddress (bus device : ℕ) : ℕ := config.baseAddr + 2 ^ 20 * bus + 2 ^ 15 * device

inductive Slot
  | absent
  | bridge (secondary : ℕ)
  | device
  deriving DecidableEq

/-- Bit 7 of the header type tells of more functions, and the secondary bus number is at 0x19. -/
def slotAt (bus device : ℕ) : Slot :=
  let a := slotAddress config bus device
  if vendorId config.mem a = 0xffff then .absent
  else if headerType config.mem a % 128 = 0 then .device
  else .bridge (config.mem (a + 0x19)).toNat

def Slot.buses : Slot → List ℕ
  | .bridge secondary => [secondary]
  | _ => []

def secondaries (bus : ℕ) : List ℕ := (List.range 32).flatMap fun device => (slotAt config bus device).buses

def OnTree (bus : ℕ) : Prop := Reached (secondaries config) 0 bus

/-- The buses are a tree with bus 0 as its root. -/
structure BusTree : Prop where
  root : ∀ {bus device}, OnTree config bus → device < 32 → slotAt config bus device ≠ .bridge 0
  other : ∀ {bus device bus' device' secondary}, OnTree config bus → OnTree config bus' → device < 32 → device' < 32 →
    slotAt config bus device = .bridge secondary → slotAt config bus' device' = .bridge secondary → bus = bus' ∧ device = device'

inductive Visit
  | bridge (bus device secondary : ℕ)
  | device (address : ℕ)
  deriving DecidableEq

end

def Event.visit : Event → Option Visit
  | .bruteForce bus device secondary => some (.bridge bus device secondary)
  | .handleDevice header => some (.device header.phys)
  | _ => none

def Scan.visits (s : Scan) : List Visit := s.events.filterMap Event.visit

/-- Each bridge and each device of the tree was visited, once, and nothing else. -/
structure Scan.Complete (config : Mmecs) (s : Scan) : Prop where
  nodup : s.visits.Nodup
  bridge_iff : ∀ bus device secondary, .bridge bus device secondary ∈ s.visits ↔
    OnTree config bus ∧ device < 32 ∧ slotAt config bus device = .bridge secondary
  device_iff : ∀ a, .device a ∈ s.visits ↔
    ∃ bus device, OnTree config bus ∧ device < 32 ∧ slotAt config bus device = .device ∧ slotAddress config bus device = a

def Enumerates (config : Mmecs) : Prop := ∃ n s, bruteForce config n 0 .start = .ok s ∧ s.Complete config

/-- What `brute_force` reads at `base` is right for the slot. -/
def SlotRight (config : Mmecs) (bus device : ℕ) : Prop :=
  let base := slotBase config bus device
  match slotAt config bus device with
  | .absent => vendorId config.mem base = 0xffff ∨ headerType config.mem base ≠ 0 ∧ secondaryBusNum config.mem base = 0
  | .bridge secondary => vendorId config.mem base ≠ 0xffff ∧ headerType config.mem base ≠ 0 ∧
      secondaryBusNum config.mem base = secondary
  | .device => slotAddress config bus device < 2 ^ 32 ∧ headerType config.mem base = 0

instance (config : Mmecs) (bus device : ℕ) : Decidable (SlotRight config bus device) :=
  match h : slotAt config bus device with
  | .absent => decidable_of_iff (vendorId config.mem (slotBase config bus device) = 0xffff ∨
      headerType config.mem (slotBase config bus device) ≠ 0 ∧ secondaryBusNum config.mem (slotBase config bus device) = 0)
    (by simp only [SlotRight, h])
  | .bridge secondary => decidable_of_iff (vendorId config.mem (slotBase config bus device) ≠ 0xffff ∧
      headerType config.mem (slotBase config bus device) ≠ 0 ∧ secondaryBusNum config.mem (slotBase config bus device) = secondary)
    (by simp only [SlotRight, h])
  | .device => decidable_of_iff (slotAddress config bus device < 2 ^ 32 ∧ headerType config.mem (slotBase config bus device) = 0)
    (by simp only [SlotRight, h])

end WordOS.Kernel.Pci
