import WordOS.Ahci.ReadIdentify
import WordOS.Lib.Bytes

/-! `post_ata_command`: what it writes for a command, and how it issues it. -/

namespace WordOS.Ahci

open Lib.Bytes

def ATA_CMD_DMA_WRITE_EXT : ℕ := 0x35
def ATA_CMD_DMA_READ_EXT : ℕ := 0x25

def SIZEOF_CMD_HEADER : ℕ := 32
def SIZEOF_CMD_TBL : ℕ := 256
def SIZEOF_FIS_REG_H2D : ℕ := 20

/-- A port with the three pages that `init_ahci_cmd_port` gives it: headers and received FIS on
the first, the command tables on the others. -/
structure CmdPort extends RamPorts where
  page : clbAddr % 4096 = 0
  bound : clbAddr + 4096 * 3 ≤ 0xFFE00000
  list_eq : ctlbAddr = clbAddr + 4096
  fb_eq : fbAddr = clbAddr + 0x400

/-- The registers, with what the successive reads of `pxci` give. Only software sets a bit of it. -/
structure PortReads where
  pxsact : BitVec 32
  pxci : ℕ → BitVec 32
  clears : pxci 1 &&& ~~~pxci 0 = 0

/-- The loop of `find_cmd_slot` with `left` slots to go. -/
def findCmdSlotFrom (slots : BitVec 32) : (left i : ℕ) → Option ℕ
  | 0, _ => none
  | left + 1, i => if slots &&& 1#32 = 0 then some i else findCmdSlotFrom (slots >>> 1) left (i + 1)

def findCmdSlot (r : PortReads) : Option ℕ := findCmdSlotFrom (r.pxsact ||| r.pxci 0) 32 0

def store8 (m : Mem) (a v : ℕ) : Mem := Function.update m a (BitVec.ofNat 8 v)

def clearSlot (m : Mem) (port : RamPorts) (cmdTbl : ℕ) : Mem :=
  let m := memset m cmdTbl 0 (SIZEOF_CMD_TBL + 0x20)
  let m := memset m cmdTbl 0 SIZEOF_FIS_REG_H2D
  memset m port.fbAddr 0 0x200

def Supported (command : ℕ) : Prop := command = ATA_CMD_DMA_READ_EXT ∨ command = ATA_CMD_DMA_WRITE_EXT

instance (command : ℕ) : Decidable (Supported command) := inferInstanceAs (Decidable (_ ∨ _))

def setFlags (m : Mem) (cmdHeader command : ℕ) : Mem :=
  let m := write16 m cmdHeader (SIZEOF_FIS_REG_H2D / 4)
  if command = ATA_CMD_DMA_READ_EXT then write16 m cmdHeader (read16 m cmdHeader &&& (0xFFFF - 1 <<< 6))
  else if command = ATA_CMD_DMA_WRITE_EXT then write16 m cmdHeader (read16 m cmdHeader ||| 1 <<< 6)
  else m

def writeHeader (m : Mem) (cmdHeader count : ℕ) : Mem :=
  let m := write16 m (cmdHeader + 2) ((count + (2 ^ 32 - 1)) % 2 ^ 32 / 2 ^ 4 + 1)
  write32 m (cmdHeader + 4) 0

def writeFis (m : Mem) (cmd lba count command : ℕ) : Mem :=
  let m := store8 m cmd 0x27
  let m := store8 m (cmd + 2) command
  let m := store8 m (cmd + 7) (1 <<< 6)
  let m := store8 m (cmd + 1) 0
  let m := store8 m (cmd + 1) ((m (cmd + 1)).toNat ||| 1 <<< 7)
  let m := store8 m (cmd + 4) lba
  let m := store8 m (cmd + 5) (lba / 2 ^ 8)
  let m := store8 m (cmd + 6) (lba / 2 ^ 16)
  let m := store8 m (cmd + 8) (lba / 2 ^ 24)
  let m := store8 m (cmd + 9) 0
  let m := store8 m (cmd + 10) 0
  let m := store8 m (cmd + 12) count
  store8 m (cmd + 13) 0

def entryAddr (cmdTbl i : ℕ) : ℕ := cmdTbl + 0x80 + 16 * i

def writeEntry (m : Mem) (entry bufPhys : ℕ) : Mem :=
  let m := write32 m entry (bufPhys % 2 ^ 32)
  let m := write32 m (entry + 4) (bufPhys / 2 ^ 31)
  write32 m (entry + 12) (1024 * 8 - 1)

/-- The loop over the entries, with the last `entry_val`. `prdtl` is read in every pass; it has
16 bits, so there are less than `2 ^ 16` of them. -/
def fillEntries (cmdHeader cmdTbl : ℕ) : (left : ℕ) → Mem → (entryVal bufPhys : ℕ) → Mem × ℕ
  | 0, m, entryVal, _ => (m, entryVal)
  | left + 1, m, entryVal, bufPhys =>
    if entryVal < read16 m (cmdHeader + 2) then
      fillEntries cmdHeader cmdTbl left (writeEntry m (entryAddr cmdTbl entryVal) bufPhys) (entryVal + 1)
        ((bufPhys + 4 * 1024) % 2 ^ 64)
    else (m, entryVal)

def tblAddr (port : RamPorts) (slot : ℕ) : ℕ := port.ctlbAddr + slot * SIZEOF_CMD_TBL

def headerAddr (port : RamPorts) (slot : ℕ) : ℕ := port.clbAddr + slot * SIZEOF_CMD_HEADER

/-- A supported command up to its entries. -/
def stage (m : Mem) (port : RamPorts) (slot lba count command : ℕ) : Mem :=
  let m := setFlags (clearSlot m port (tblAddr port slot)) (headerAddr port slot) command
  let m := writeHeader m (headerAddr port slot) count
  writeFis m (tblAddr port slot) lba count command

/-- What a supported command leaves in memory. -/
def prepare (m : Mem) (port : RamPorts) (slot lba count bufPhys command : ℕ) : Mem :=
  let (m, entryVal) := fillEntries (headerAddr port slot) (tblAddr port slot) (2 ^ 16)
    (stage m port slot lba count command) 0 bufPhys
  write32 m (entryAddr (tblAddr port slot) entryVal - 16 + 12) (0x2 <<< 10 ||| 1 <<< 31)

/-- The wait for a command, with `left` passes to go; the passes made. -/
def waitCi (pxci : ℕ → BitVec 32) (mask : BitVec 32) : (left i : ℕ) → ℕ
  | 0, i => i
  | left + 1, i => if pxci (2 + i) &&& mask ≠ 0 then waitCi pxci mask left (i + 1) else i

/-- `issued` has what `pxci` held before the store, the value stored, the bits that the wait
tests and its passes. -/
inductive PostEnd
  | noSlot
  | unsupported
  | issued (before written awaited : BitVec 32) (passes : ℕ)

def MAX_PASSES : ℕ := 10000000

/-- The port has timed out if all passes are made. -/
def issue (r : PortReads) (slot : ℕ) : PostEnd :=
  .issued (r.pxci 1) (r.pxci 1 ||| 1#32) (1#32 <<< slot) (waitCi r.pxci (1#32 <<< slot) MAX_PASSES 0)

/-- `translate` is `get_phys_from_virt`. -/
def postAtaCommand (translate : ℕ → ℕ) (r : PortReads) (m : Mem) (port : RamPorts) (lba count buffer command : ℕ) :
    Mem × PostEnd :=
  match findCmdSlot r with
  | none => (m, .noSlot)
  | some slot =>
    if Supported command then
      (prepare m port slot lba count ((translate buffer + buffer % 2 ^ 12) % 2 ^ 64) command, issue r slot)
    else
      (setFlags (clearSlot m port (tblAddr port slot)) (headerAddr port slot) command, .unsupported)

def ahciRead (translate : ℕ → ℕ) (r : PortReads) (m : Mem) (port : RamPorts) (lba count buffer : ℕ) : Mem × PostEnd :=
  postAtaCommand translate r m port lba count buffer ATA_CMD_DMA_READ_EXT

def ahciWrite (translate : ℕ → ℕ) (r : PortReads) (m : Mem) (port : RamPorts) (lba count buffer : ℕ) : Mem × PostEnd :=
  postAtaCommand translate r m port lba count buffer ATA_CMD_DMA_WRITE_EXT

/-- A port whose pages lie at the start of the kernel's dynamic range. -/
def firstPort : CmdPort where
  clbAddr := 0xCC000000
  ctlbAddr := 0xCC001000
  fbAddr := 0xCC000400
  sig := 0
  cap := 0
  cmdSet := 0
  sectorWords := 0
  lbaCount := 0
  model := fun _ => 0
  page := rfl
  bound := by decide
  list_eq := rfl
  fb_eq := rfl

def idleReads : PortReads := ⟨0, fun _ => 0, rfl⟩

end WordOS.Ahci
