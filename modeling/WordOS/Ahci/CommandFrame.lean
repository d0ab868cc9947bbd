import WordOS.Ahci.CommandSlots

/-! Which memory a command changes. -/

namespace WordOS.Ahci

open Lib.Bytes

/-- The other slots and the memory outside the port's pages are as before. -/
structure OthersKept (m m' : Mem) (port : RamPorts) (slot : ℕ) : Prop where
  headers : ∀ j < 32, j ≠ slot → ∀ i < SIZEOF_CMD_HEADER, m' (headerAddr port j + i) = m (headerAddr port j + i)
  tables : ∀ j < 32, j ≠ slot → ∀ i < SIZEOF_CMD_TBL, m' (tblAddr port j + i) = m (tblAddr port j + i)
  outside : ∀ x, x < port.clbAddr ∨ port.clbAddr + 4096 * 3 ≤ x → m' x = m x

/-- The 32 bytes behind the slot's table are cleared with it. -/
structure Changes (m m' : Mem) (port : RamPorts) (slot : ℕ) : Prop where
  frame : ∀ x, (x < headerAddr port slot ∨ headerAddr port slot + 8 ≤ x) →
    (x < tblAddr port slot ∨ tblAddr port slot + 288 ≤ x) → (x < port.fbAddr ∨ port.fbAddr + 0x200 ≤ x) → m' x = m x
  spill : ∀ i < 32, m' (tblAddr port slot + 256 + i) = 0

variable {m m' : Mem} {slot lba count command bufPhys : ℕ}

lemma findCmdSlotFrom_lt {slots : BitVec 32} {left i : ℕ} (h : findCmdSlotFrom slots left i = some slot) : slot < i + left := by
  induction left generalizing slots i with
  | zero => cases h
  | succ left ih =>
    rw [findCmdSlotFrom] at h
    split at h
    · cases h
      omega
    · have hlt := ih h
      omega

namespace CmdPort

variable (port : CmdPort)

lemma changes_unsupported (m : Mem) (slot command : ℕ) :
    Changes m (setFlags (clearSlot m port.toRamPorts (tblAddr port.toRamPorts slot)) (headerAddr port.toRamPorts slot) command)
      port.toRamPorts slot := by
  have ht := port.tblAddr_eq slot
  have hh := port.headerAddr_eq slot
  refine ⟨fun x hx hx' hf => ?_, fun i hi => ?_⟩
  · rw [setFlags_of_outside (by omega), clearSlot_of_outside hx' hf]
  · rw [setFlags_of_outside (by omega)]
    exact clearSlot_zero (by omega) (by omega)

lemma changes_stage (m : Mem) (slot lba count command : ℕ) :
    Changes m (stage m port.toRamPorts slot lba count command) port.toRamPorts slot := by
  have ht := port.tblAddr_eq slot
  have hh := port.headerAddr_eq slot
  refine ⟨fun x hx hx' hf => port.stage_of_outside hx hx' hf, fun i hi => ?_⟩
  rw [stage, writeFis_of_outside (by omega), writeHeader_of_outside (by omega)]
  exact (port.changes_unsupported m slot command).spill i hi

/-- Up to 8 entries stay within the table. -/
lemma prepare_entries_of_outside (h64 : bufPhys < 2 ^ 64) (hpos : 0 < prdtlOf count) (hk : prdtlOf count ≤ 8) {x : ℕ}
    (hx : x < tblAddr port.toRamPorts slot + 0x80 ∨ tblAddr port.toRamPorts slot + 256 ≤ x) :
    prepare m port.toRamPorts slot lba count bufPhys command x = stage m port.toRamPorts slot lba count command x := by
  obtain ⟨m', hfilled, heq⟩ := port.prepare_eq m slot lba count command h64
  rw [heq, write32_of_outside (by rw [entryAddr]; omega)]
  exact hfilled.frame x (by simp only [entryAddr]; omega)

lemma changes_prepare (m : Mem) (slot lba command : ℕ) (h64 : bufPhys < 2 ^ 64) (hpos : 0 < prdtlOf count)
    (hk : prdtlOf count ≤ 8) : Changes m (prepare m port.toRamPorts slot lba count bufPhys command) port.toRamPorts slot := by
  obtain ⟨hframe, hspill⟩ := port.changes_stage m slot lba count command
  refine ⟨fun x hx hx' hf => ?_, fun i hi => ?_⟩
  · rw [port.prepare_entries_of_outside h64 hpos hk (by omega)]
    exact hframe x hx hx' hf
  · rw [port.prepare_entries_of_outside h64 hpos hk (by omega)]
    exact hspill i hi

lemma changes_post (translate : ℕ → ℕ) {r : PortReads} (m : Mem) (lba count buffer command : ℕ) (hs : findCmdSlot r = some slot)
    (hpos : 0 < count) (hcount : count ≤ 128) :
    Changes m (postAtaCommand translate r m port.toRamPorts lba count buffer command).1 port.toRamPorts slot := by
  have hk := prdtlOf_eq hpos (by omega)
  by_cases hc : Supported command
  · rw [postAtaCommand_supported hs hc]
    exact port.changes_prepare m slot lba command (Nat.mod_lt _ (Nat.two_pow_pos 64)) (by omega) (by omega)
  · rw [postAtaCommand, hs]
    simp only [if_neg hc]
    exact port.changes_unsupported m slot command

variable {port}

/-- The bytes behind the table are the next slot's, or lie behind the third page. -/
lemma othersKept_iff (h : Changes m m' port.toRamPorts slot) (hlt : slot < 32) :
    OthersKept m m' port.toRamPorts slot ↔ ∀ i < 32, m (tblAddr port.toRamPorts slot + 256 + i) = 0 := by
  have ht := port.tblAddr_eq
  have hh := port.headerAddr_eq
  have hfb := port.fb_eq
  constructor
  · intro hkept i hi
    rw [← h.spill i hi]
    by_cases hlast : slot + 1 < 32
    · have hnext := hkept.tables (slot + 1) hlast (by omega) i (by rw [SIZEOF_CMD_TBL]; omega)
      rw [show tblAddr port.toRamPorts (slot + 1) + i = tblAddr port.toRamPorts slot + 256 + i by rw [ht, ht]; omega] at hnext
      exact hnext.symm
    · exact (hkept.outside _ (by rw [ht]; omega)).symm
  · intro hzero
    have hkeep : ∀ x, (x < headerAddr port.toRamPorts slot ∨ headerAddr port.toRamPorts slot + 8 ≤ x) →
        (x < tblAddr port.toRamPorts slot ∨ tblAddr port.toRamPorts slot + 256 ≤ x) →
          (x < port.fbAddr ∨ port.fbAddr + 0x200 ≤ x) → m' x = m x := by
      intro x hx hx' hf
      by_cases hspill : tblAddr port.toRamPorts slot ≤ x ∧ x < tblAddr port.toRamPorts slot + 288
      · obtain ⟨i, rfl⟩ : ∃ i, x = tblAddr port.toRamPorts slot + 256 + i :=
          ⟨x - (tblAddr port.toRamPorts slot + 256), by omega⟩
        rw [h.spill i (by omega), hzero i (by omega)]
      · exact h.frame x hx (by omega) hf
    have hts := ht slot
    have hhs := hh slot
    refine ⟨fun j hj hne i hi => ?_, fun j hj hne i hi => ?_, fun x hx => ?_⟩
    · have hhj := hh j
      rw [SIZEOF_CMD_HEADER] at hi
      exact hkeep _ (by omega) (by omega) (by omega)
    · have htj := ht j
      rw [SIZEOF_CMD_TBL] at hi
      exact hkeep _ (by omega) (by omega) (by omega)
    · exact hkeep x (by omega) (by omega) (by omega)

end CmdPort

theorem others_kept_iff (translate : ℕ → ℕ) (r : PortReads) (m : Mem) (port : CmdPort) (slot lba count buffer command : ℕ)
    (hs : findCmdSlot r = some slot) (hpos : 0 < count) (hcount : count ≤ 128) :
    OthersKept m (postAtaCommand translate r m port.toRamPorts lba count buffer command).1 port.toRamPorts slot ↔
      ∀ i < 32, m (tblAddr port.toRamPorts slot + 256 + i) = 0 := by
  have hlt := findCmdSlotFrom_lt hs
  rw [Nat.zero_add] at hlt
  exact CmdPort.othersKept_iff (port.changes_post translate m lba count buffer command hs hpos hcount) hlt

theorem others_kept_iff_first :
    OthersKept (fun _ => 0) (postAtaCommand id idleReads (fun _ => 0) firstPort.toRamPorts 0 1 0 ATA_CMD_DMA_READ_EXT).1
        firstPort.toRamPorts 0 ↔
      ∀ i < 32, (fun _ => 0 : Mem) (tblAddr firstPort.toRamPorts 0 + 256 + i) = 0 :=
  others_kept_iff id idleReads (fun _ => 0) firstPort 0 0 1 0 ATA_CMD_DMA_READ_EXT rfl (by decide) (by decide)

/-- The FIS of the next slot starts with 0x27. -/
theorem others_kept_counterexample :
    ¬ ∀ (translate : ℕ → ℕ) (r : PortReads) (m : Mem) (port : CmdPort) (slot lba count buffer command : ℕ),
      findCmdSlot r = some slot → 0 < count → count ≤ 128 →
        OthersKept m (postAtaCommand translate r m port.toRamPorts lba count buffer command).1 port.toRamPorts slot := by
  intro h
  have hs : findCmdSlot idleReads = some 0 := rfl
  have hh := h id idleReads (fun _ => 0x27) firstPort 0 0 1 0 ATA_CMD_DMA_READ_EXT hs (by decide) (by decide)
  have hchanges := firstPort.changes_post id (fun _ => 0x27) 0 1 0 ATA_CMD_DMA_READ_EXT hs (by decide) (by decide)
  have hzero := (CmdPort.othersKept_iff hchanges (by decide)).mp hh 0 (by decide)
  exact absurd hzero (by decide)

end WordOS.Ahci
