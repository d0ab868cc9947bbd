import WordOS.Ahci.CommandFis
import Mathlib.Algebra.BigOperators.Intervals

/-! The entries of a command's table as segments of physical memory. -/

namespace WordOS.Ahci

open Lib.Bytes

def entryPhys (m : Mem) (cmdTbl i : ℕ) : ℕ := read32 m (entryAddr cmdTbl i) + 2 ^ 32 * read32 m (entryAddr cmdTbl i + 4)

/-- The field DBC has 22 bits and holds the number of bytes less one. -/
def entryBytes (m : Mem) (cmdTbl i : ℕ) : ℕ := read32 m (entryAddr cmdTbl i + 12) % 2 ^ 22 + 1

/-- The `prdtl` entries of the header are segments that follow one another from `phys` on. -/
structure Segments (m : Mem) (cmdHeader cmdTbl phys count : ℕ) : Prop where
  within : read16 m (cmdHeader + 2) ≤ 8
  first : entryPhys m cmdTbl 0 = phys
  next : ∀ i, i + 1 < read16 m (cmdHeader + 2) → entryPhys m cmdTbl (i + 1) = entryPhys m cmdTbl i + entryBytes m cmdTbl i
  total : ∑ i ∈ Finset.range (read16 m (cmdHeader + 2)), entryBytes m cmdTbl i = count * 512

namespace CmdPort

variable (port : CmdPort) (m : Mem) (slot lba command : ℕ) {count bufPhys : ℕ}

lemma prepare_prdtl (h64 : bufPhys < 2 ^ 64) :
    read16 (prepare m port.toRamPorts slot lba count bufPhys command) (headerAddr port.toRamPorts slot + 2) = prdtlOf count := by
  obtain ⟨m', hfilled, heq⟩ := port.prepare_eq m slot lba count command h64
  have htbl := port.tblAddr_eq slot
  have hhdr := port.headerAddr_eq slot
  rw [← port.stage_prdtl m slot lba count command, heq]
  refine read16_congr fun i hi => ?_
  rw [write32_of_outside (by rw [entryAddr]; omega)]
  exact hfilled.frame _ (by rw [entryAddr]; omega)

/-- Every entry but the last has 8 KiB, at addresses 4 KiB apart. -/
lemma prepare_entry (h64 : bufPhys < 2 ^ 64) {i : ℕ} (hi : i + 1 < prdtlOf count) :
    Entry (prepare m port.toRamPorts slot lba count bufPhys command) (entryAddr (tblAddr port.toRamPorts slot) i)
      ((bufPhys + 4096 * i) % 2 ^ 64) := by
  obtain ⟨m', hfilled, heq⟩ := port.prepare_eq m slot lba count command h64
  have hentry := hfilled.entries i (by omega)
  rw [Nat.zero_add] at hentry
  rw [heq]
  refine hentry.congr fun x hl hh => write32_of_outside ?_
  simp only [entryAddr] at hl hh ⊢
  omega

lemma prepare_last (h64 : bufPhys < 2 ^ 64) {k : ℕ} (hk : prdtlOf count = k + 1) :
    entryBytes (prepare m port.toRamPorts slot lba count bufPhys command) (tblAddr port.toRamPorts slot) k = 2049 := by
  obtain ⟨m', -, heq⟩ := port.prepare_eq m slot lba count command h64
  have hat : entryAddr (tblAddr port.toRamPorts slot) (prdtlOf count) - 16 + 12 =
      entryAddr (tblAddr port.toRamPorts slot) k + 12 := by
    simp only [entryAddr]
    omega
  rw [entryBytes, heq, hat, read32_write32_self]
  rfl

lemma prepare_total (h64 : bufPhys < 2 ^ 64) {k : ℕ} (hk : prdtlOf count = k + 1) :
    ∑ i ∈ Finset.range (k + 1), entryBytes (prepare m port.toRamPorts slot lba count bufPhys command)
      (tblAddr port.toRamPorts slot) i = k * 8192 + 2049 := by
  have hfull : ∀ i ∈ Finset.range k, entryBytes (prepare m port.toRamPorts slot lba count bufPhys command)
      (tblAddr port.toRamPorts slot) i = 8192 := by
    intro i hi
    have hlt := Finset.mem_range.mp hi
    have hdw3 := port.prepare_entry m slot lba command h64 (by omega : i + 1 < prdtlOf count)
    rw [entryBytes, hdw3.dw3]
    rfl
  rw [Finset.sum_range_succ, port.prepare_last m slot lba command h64 hk, Finset.sum_const_nat hfull, Finset.card_range]

/-- The last entry has an odd number of bytes, and sectors have an even one. -/
lemma prepare_not_segments (h64 : bufPhys < 2 ^ 64) (hpos : 0 < prdtlOf count) :
    ¬ Segments (prepare m port.toRamPorts slot lba count bufPhys command) (headerAddr port.toRamPorts slot)
      (tblAddr port.toRamPorts slot) bufPhys count := by
  obtain ⟨k, hk⟩ : ∃ k, prdtlOf count = k + 1 := ⟨prdtlOf count - 1, by omega⟩
  intro h
  have htotal := h.total
  rw [port.prepare_prdtl m slot lba command h64, hk, port.prepare_total m slot lba command h64 hk] at htotal
  omega

end CmdPort

theorem not_segments (translate : ℕ → ℕ) (r : PortReads) (m : Mem) (port : CmdPort) (slot lba count buffer command : ℕ)
    (hs : findCmdSlot r = some slot) (hpos : 0 < count) (hcount : count ≤ 128) (hc : Supported command) :
    ¬ Segments (postAtaCommand translate r m port.toRamPorts lba count buffer command).1 (headerAddr port.toRamPorts slot)
      (tblAddr port.toRamPorts slot) ((translate buffer + buffer % 2 ^ 12) % 2 ^ 64) count := by
  have hk : 0 < prdtlOf count := by
    rw [prdtlOf_eq hpos (by omega)]
    omega
  rw [postAtaCommand_supported hs hc]
  exact port.prepare_not_segments m slot lba command (Nat.mod_lt _ (Nat.two_pow_pos 64)) hk

theorem not_segments_first :
    ¬ Segments (postAtaCommand id idleReads (fun _ => 0) firstPort.toRamPorts 0 32 0x5000 ATA_CMD_DMA_READ_EXT).1
      (headerAddr firstPort.toRamPorts 0) (tblAddr firstPort.toRamPorts 0) ((id 0x5000 + 0x5000 % 2 ^ 12) % 2 ^ 64) 32 :=
  not_segments id idleReads (fun _ => 0) firstPort 0 0 32 0x5000 ATA_CMD_DMA_READ_EXT rfl (by decide) (by decide) (Or.inl rfl)

/-- 16 KiB at `0x5000`: two entries, at `0x5000` and `0x6000`, of 8192 and 2049 bytes. -/
theorem segments_counterexample :
    ¬ ∀ (translate : ℕ → ℕ) (r : PortReads) (m : Mem) (port : CmdPort) (slot lba count buffer command : ℕ),
      findCmdSlot r = some slot → 0 < count → count ≤ 128 → Supported command →
        Segments (postAtaCommand translate r m port.toRamPorts lba count buffer command).1 (headerAddr port.toRamPorts slot)
          (tblAddr port.toRamPorts slot) ((translate buffer + buffer % 2 ^ 12) % 2 ^ 64) count := by
  intro h
  have hc : Supported ATA_CMD_DMA_READ_EXT := Or.inl rfl
  have hh := h id idleReads (fun _ => 0) firstPort 0 0 32 0x5000 ATA_CMD_DMA_READ_EXT rfl (by decide) (by decide) hc
  rw [postAtaCommand_supported rfl hc] at hh
  have h64 : (id 0x5000 + 0x5000 % 2 ^ 12) % 2 ^ 64 < 2 ^ 64 := Nat.mod_lt _ (Nat.two_pow_pos 64)
  have hk : 0 < prdtlOf 32 := by decide
  exact firstPort.prepare_not_segments (fun _ => 0) 0 0 ATA_CMD_DMA_READ_EXT h64 hk hh

end WordOS.Ahci
