import WordOS.Ahci.CommandMemory

/-! The register FIS of a command, and what it says to the disk. -/

namespace WordOS.Ahci

open Lib.Bytes

/-- `lba0` to `lba5` of `struct FIS_REG_H2D`. -/
def fisLba (m : Mem) (cmd : ℕ) : ℕ :=
  (m (cmd + 4)).toNat + 2 ^ 8 * (m (cmd + 5)).toNat + 2 ^ 16 * (m (cmd + 6)).toNat +
    2 ^ 24 * (m (cmd + 8)).toNat + 2 ^ 32 * (m (cmd + 9)).toNat + 2 ^ 40 * (m (cmd + 10)).toNat

def fisCount (m : Mem) (cmd : ℕ) : ℕ := (m (cmd + 12)).toNat + 2 ^ 8 * (m (cmd + 13)).toNat

variable {m : Mem} {cmd lba count command : ℕ}

lemma fisLba_congr {m' : Mem} (h : ∀ i < 14, m' (cmd + i) = m (cmd + i)) : fisLba m' cmd = fisLba m cmd := by
  rw [fisLba, fisLba, h 4 (by decide), h 5 (by decide), h 6 (by decide), h 8 (by decide), h 9 (by decide), h 10 (by decide)]

lemma fisCount_congr {m' : Mem} (h : ∀ i < 14, m' (cmd + i) = m (cmd + i)) : fisCount m' cmd = fisCount m cmd := by
  rw [fisCount, fisCount, h 12 (by decide), h 13 (by decide)]

/-- The two high bytes of the block number are not stored. -/
lemma fisLba_writeFis : fisLba (writeFis m cmd lba count command) cmd = lba % 2 ^ 32 := by
  simp only [fisLba, writeFis, store8, Function.update_apply, Nat.add_left_cancel_iff, Nat.reduceEqDiff, if_true, if_false,
    BitVec.toNat_ofNat]
  omega

lemma fisCount_writeFis : fisCount (writeFis m cmd lba count command) cmd = count % 2 ^ 8 := by
  simp only [fisCount, writeFis, store8, Function.update_apply, Nat.add_left_cancel_iff, Nat.reduceEqDiff, if_true, if_false,
    BitVec.toNat_ofNat]
  omega

lemma postAtaCommand_supported {translate : ℕ → ℕ} {r : PortReads} {port : RamPorts} {slot buffer : ℕ}
    (hs : findCmdSlot r = some slot) (hc : Supported command) :
    postAtaCommand translate r m port lba count buffer command =
      (prepare m port slot lba count ((translate buffer + buffer % 2 ^ 12) % 2 ^ 64) command, issue r slot) := by
  rw [postAtaCommand, hs]
  exact if_pos hc

variable (m lba command) in
lemma fis_prepare (port : CmdPort) (slot : ℕ) {bufPhys : ℕ} (h64 : bufPhys < 2 ^ 64) (h0 : 0 < prdtlOf count) :
    fisLba (prepare m port.toRamPorts slot lba count bufPhys command) (tblAddr port.toRamPorts slot) = lba % 2 ^ 32 ∧
      fisCount (prepare m port.toRamPorts slot lba count bufPhys command) (tblAddr port.toRamPorts slot) = count % 2 ^ 8 := by
  have hbelow : ∀ i < 14, prepare m port.toRamPorts slot lba count bufPhys command (tblAddr port.toRamPorts slot + i) =
      stage m port.toRamPorts slot lba count command (tblAddr port.toRamPorts slot + i) :=
    fun i hi => port.prepare_below h64 h0 (by omega)
  rw [fisLba_congr hbelow, fisCount_congr hbelow]
  exact ⟨fisLba_writeFis, fisCount_writeFis⟩

theorem fis_decodes_iff (translate : ℕ → ℕ) (r : PortReads) (m : Mem) (port : CmdPort) (slot lba count buffer command : ℕ)
    (hs : findCmdSlot r = some slot) (hlba : lba < 2 ^ 48) (hpos : 0 < count) (hcount : count < 2 ^ 16) (hc : Supported command) :
    (fisLba (postAtaCommand translate r m port.toRamPorts lba count buffer command).1 (tblAddr port.toRamPorts slot) = lba ∧
        fisCount (postAtaCommand translate r m port.toRamPorts lba count buffer command).1 (tblAddr port.toRamPorts slot) = count) ↔
      lba < 2 ^ 32 ∧ count < 2 ^ 8 := by
  have hk : 0 < prdtlOf count := by
    rw [prdtlOf_eq hpos hcount]
    omega
  obtain ⟨hl, hn⟩ := fis_prepare m lba command port slot
    (Nat.mod_lt (translate buffer + buffer % 2 ^ 12) (Nat.two_pow_pos 64)) hk
  rw [postAtaCommand_supported hs hc, hl, hn]
  omega

theorem fis_decodes_iff_first :
    (fisLba (postAtaCommand id idleReads (fun _ => 0) firstPort.toRamPorts 7 1 0 ATA_CMD_DMA_READ_EXT).1
          (tblAddr firstPort.toRamPorts 0) = 7 ∧
        fisCount (postAtaCommand id idleReads (fun _ => 0) firstPort.toRamPorts 7 1 0 ATA_CMD_DMA_READ_EXT).1
          (tblAddr firstPort.toRamPorts 0) = 1) ↔
      7 < 2 ^ 32 ∧ 1 < 2 ^ 8 :=
  fis_decodes_iff id idleReads (fun _ => 0) firstPort 0 7 1 0 ATA_CMD_DMA_READ_EXT rfl (by norm_num) (by decide) (by decide)
    (Or.inl rfl)

/-- The first block past 2 TiB. -/
theorem fis_decodes_counterexample :
    ¬ ∀ (translate : ℕ → ℕ) (r : PortReads) (m : Mem) (port : CmdPort) (slot lba count buffer command : ℕ),
      findCmdSlot r = some slot → lba < 2 ^ 48 → 0 < count → count < 2 ^ 16 → Supported command →
        fisLba (postAtaCommand translate r m port.toRamPorts lba count buffer command).1 (tblAddr port.toRamPorts slot) = lba ∧
          fisCount (postAtaCommand translate r m port.toRamPorts lba count buffer command).1 (tblAddr port.toRamPorts slot) =
            count := by
  intro h
  have hc : Supported ATA_CMD_DMA_READ_EXT := Or.inl rfl
  obtain ⟨hl, -⟩ := h id idleReads (fun _ => 0) firstPort 0 (2 ^ 32) 1 0 ATA_CMD_DMA_READ_EXT rfl (by norm_num) (by decide)
    (by decide) hc
  have hk : 0 < prdtlOf 1 := by decide
  rw [postAtaCommand_supported rfl hc, (fis_prepare _ _ _ firstPort 0 (by decide) hk).left] at hl
  exact absurd hl (by norm_num)

end WordOS.Ahci
