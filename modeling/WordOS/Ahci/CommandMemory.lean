import WordOS.Ahci.Commands

/-! What each stage of a command changes in memory, and what its entries hold. -/

namespace WordOS.Ahci

open Lib.Bytes

variable {m : Mem} {port : RamPorts} {slot lba count command bufPhys x : ℕ}

lemma store8_of_ne {a v : ℕ} (h : x ≠ a) : store8 m a v x = m x := Function.update_of_ne h ..

section

variable {cmdTbl cmdHeader : ℕ}

lemma clearSlot_of_outside (ht : x < cmdTbl ∨ cmdTbl + 288 ≤ x) (hf : x < port.fbAddr ∨ port.fbAddr + 0x200 ≤ x) :
    clearSlot m port cmdTbl x = m x := by
  rw [clearSlot, memset_of_outside hf, memset_of_outside (by simp only [SIZEOF_FIS_REG_H2D]; omega),
    memset_of_outside (by simp only [SIZEOF_CMD_TBL]; omega)]

lemma clearSlot_zero (hl : cmdTbl ≤ x) (hh : x < cmdTbl + 288) : clearSlot m port cmdTbl x = 0 := by
  rw [clearSlot]
  by_cases hf : port.fbAddr ≤ x ∧ x < port.fbAddr + 0x200
  · exact memset_inside hf.left hf.right
  rw [memset_of_outside (by omega)]
  by_cases hc : x < cmdTbl + SIZEOF_FIS_REG_H2D
  · exact memset_inside hl hc
  · rw [memset_of_outside (by omega)]
    exact memset_inside hl (by simp only [SIZEOF_CMD_TBL]; omega)

lemma setFlags_of_outside (h : x < cmdHeader ∨ cmdHeader + 2 ≤ x) : setFlags m cmdHeader command x = m x := by
  rw [setFlags]
  split
  · rw [write16_of_outside h, write16_of_outside h]
  · split
    · rw [write16_of_outside h, write16_of_outside h]
    · exact write16_of_outside h

lemma writeHeader_of_outside (h : x < cmdHeader + 2 ∨ cmdHeader + 8 ≤ x) : writeHeader m cmdHeader count x = m x := by
  rw [writeHeader, write32_of_outside (by omega), write16_of_outside (by omega)]

lemma writeHeader_prdtl :
    read16 (writeHeader m cmdHeader count) (cmdHeader + 2) = ((count + (2 ^ 32 - 1)) % 2 ^ 32 / 2 ^ 4 + 1) % 2 ^ 16 := by
  rw [writeHeader, read16_congr fun i hi => write32_of_outside (by omega)]
  exact read16_write16_self

lemma writeFis_of_outside {cmd : ℕ} (h : x < cmd ∨ cmd + 14 ≤ x) : writeFis m cmd lba count command x = m x := by
  rw [writeFis, store8_of_ne (by omega), store8_of_ne (by omega), store8_of_ne (by omega), store8_of_ne (by omega),
    store8_of_ne (by omega), store8_of_ne (by omega), store8_of_ne (by omega), store8_of_ne (by omega),
    store8_of_ne (by omega), store8_of_ne (by omega), store8_of_ne (by omega), store8_of_ne (by omega),
    store8_of_ne (by omega)]

lemma writeEntry_of_outside {entry : ℕ} (h : x < entry ∨ entry + 16 ≤ x) : writeEntry m entry bufPhys x = m x := by
  rw [writeEntry, write32_of_outside (by omega), write32_of_outside (by omega), write32_of_outside (by omega)]

/-- The entry as the loop leaves it. -/
structure Entry (m : Mem) (entry bufPhys : ℕ) : Prop where
  dba : read32 m entry = bufPhys % 2 ^ 32
  dbau : read32 m (entry + 4) = bufPhys / 2 ^ 31 % 2 ^ 32
  dw3 : read32 m (entry + 12) = 1024 * 8 - 1

lemma Entry.congr {m' : Mem} {entry : ℕ} (h : Entry m entry bufPhys) (hm : ∀ x, entry ≤ x → x < entry + 16 → m' x = m x) :
    Entry m' entry bufPhys := by
  obtain ⟨h0, h1, h3⟩ := h
  refine ⟨?_, ?_, ?_⟩
  · rw [← h0]
    exact read32_congr fun i hi => hm _ (by omega) (by omega)
  · rw [← h1]
    exact read32_congr fun i hi => hm _ (by omega) (by omega)
  · rw [← h3]
    exact read32_congr fun i hi => hm _ (by omega) (by omega)

lemma entry_writeEntry {entry : ℕ} : Entry (writeEntry m entry bufPhys) entry bufPhys := by
  rw [writeEntry]
  refine ⟨?_, ?_, ?_⟩
  · rw [read32_write32_of_disjoint (by omega), read32_write32_of_disjoint (by omega), read32_write32_self, Nat.mod_mod]
  · rw [read32_write32_of_disjoint (by omega), read32_write32_self]
  · exact read32_write32_self

/-- The loop from `entryVal` on, up to the `prdtl` of the header. -/
structure Filled (m m' : Mem) (cmdTbl entryVal prdtl bufPhys : ℕ) : Prop where
  frame : ∀ x, x < entryAddr cmdTbl entryVal ∨ entryAddr cmdTbl prdtl ≤ x → m' x = m x
  entries : ∀ i, entryVal + i < prdtl → Entry m' (entryAddr cmdTbl (entryVal + i)) ((bufPhys + 4096 * i) % 2 ^ 64)

lemma fillEntries_filled {left entryVal prdtl : ℕ} (hlow : cmdHeader + 4 ≤ cmdTbl) (hp : read16 m (cmdHeader + 2) = prdtl)
    (he : entryVal ≤ prdtl) (hl : prdtl - entryVal ≤ left) (h64 : bufPhys < 2 ^ 64) :
    (fillEntries cmdHeader cmdTbl left m entryVal bufPhys).2 = prdtl ∧
      Filled m (fillEntries cmdHeader cmdTbl left m entryVal bufPhys).1 cmdTbl entryVal prdtl bufPhys := by
  induction left generalizing m entryVal bufPhys with
  | zero =>
    obtain rfl : entryVal = prdtl := by omega
    exact ⟨rfl, fun _ _ => rfl, fun i hi => by omega⟩
  | succ left ih =>
    rw [fillEntries, hp]
    by_cases hlt : entryVal < prdtl
    · rw [if_pos hlt]
      have hread : read16 (writeEntry m (entryAddr cmdTbl entryVal) bufPhys) (cmdHeader + 2) = prdtl := by
        rw [← hp]
        exact read16_congr fun i hi => writeEntry_of_outside (by rw [entryAddr]; omega)
      have h64' : (bufPhys + 4 * 1024) % 2 ^ 64 < 2 ^ 64 := Nat.mod_lt _ (Nat.two_pow_pos 64)
      obtain ⟨hval, hframe, hentries⟩ := ih hread hlt (by omega) h64'
      refine ⟨hval, fun x hx => ?_, fun i hi => ?_⟩
      · rw [hframe x (by simp only [entryAddr] at hx ⊢; omega)]
        exact writeEntry_of_outside (by simp only [entryAddr] at hx ⊢; omega)
      · cases i with
        | zero =>
          simp only [Nat.mul_zero, Nat.add_zero, Nat.mod_eq_of_lt h64]
          exact entry_writeEntry.congr fun x hx hx' => hframe x (by simp only [entryAddr] at hx' ⊢; omega)
        | succ i =>
          have hh := hentries i (by omega)
          rwa [show entryVal + 1 + i = entryVal + (i + 1) by omega,
            show ((bufPhys + 4 * 1024) % 2 ^ 64 + 4096 * i) % 2 ^ 64 = (bufPhys + 4096 * (i + 1)) % 2 ^ 64 by omega] at hh
    · rw [if_neg hlt]
      obtain rfl : entryVal = prdtl := by omega
      exact ⟨rfl, fun _ _ => rfl, fun i hi => by omega⟩

end

def prdtlOf (count : ℕ) : ℕ := ((count + (2 ^ 32 - 1)) % 2 ^ 32 / 2 ^ 4 + 1) % 2 ^ 16

lemma prdtlOf_eq (h0 : 0 < count) (h : count < 2 ^ 16) : prdtlOf count = (count - 1) / 16 + 1 := by
  rw [prdtlOf]
  omega

namespace CmdPort

variable (port : CmdPort)

lemma tblAddr_eq (slot : ℕ) : tblAddr port.toRamPorts slot = port.clbAddr + 4096 + 256 * slot := by
  rw [tblAddr, port.list_eq, SIZEOF_CMD_TBL]
  omega

lemma headerAddr_eq (slot : ℕ) : headerAddr port.toRamPorts slot = port.clbAddr + 32 * slot := by
  rw [headerAddr, SIZEOF_CMD_HEADER]
  omega

variable (m slot lba count command) in
lemma stage_prdtl :
    read16 (stage m port.toRamPorts slot lba count command) (headerAddr port.toRamPorts slot + 2) = prdtlOf count := by
  rw [stage, prdtlOf, ← writeHeader_prdtl]
  refine read16_congr fun i hi => writeFis_of_outside ?_
  rw [port.tblAddr_eq, port.headerAddr_eq]
  omega

variable (m slot lba count command) in
lemma prepare_eq (h64 : bufPhys < 2 ^ 64) : ∃ m',
    Filled (stage m port.toRamPorts slot lba count command) m' (tblAddr port.toRamPorts slot) 0 (prdtlOf count) bufPhys ∧
      prepare m port.toRamPorts slot lba count bufPhys command =
        write32 m' (entryAddr (tblAddr port.toRamPorts slot) (prdtlOf count) - 16 + 12) (0x2 <<< 10 ||| 1 <<< 31) := by
  have hlow : headerAddr port.toRamPorts slot + 4 ≤ tblAddr port.toRamPorts slot := by
    rw [port.tblAddr_eq, port.headerAddr_eq]
    omega
  have hk : prdtlOf count < 2 ^ 16 := Nat.mod_lt _ (by decide)
  obtain ⟨hval, hfilled⟩ := fillEntries_filled hlow (port.stage_prdtl m slot lba count command) (Nat.zero_le _)
    (by omega : prdtlOf count - 0 ≤ 2 ^ 16) h64
  refine ⟨_, hfilled, ?_⟩
  rw [prepare, ← hval]

/-- Below its entries the table is as staged. -/
lemma prepare_below (h64 : bufPhys < 2 ^ 64) (h0 : 0 < prdtlOf count)
    (hx : x < tblAddr port.toRamPorts slot + 0x80) :
    prepare m port.toRamPorts slot lba count bufPhys command x = stage m port.toRamPorts slot lba count command x := by
  obtain ⟨m', hfilled, heq⟩ := port.prepare_eq m slot lba count command h64
  rw [heq, write32_of_outside (by rw [entryAddr]; omega)]
  exact hfilled.frame x (by rw [entryAddr]; omega)

lemma stage_of_outside (hh : x < headerAddr port.toRamPorts slot ∨ headerAddr port.toRamPorts slot + 8 ≤ x)
    (ht : x < tblAddr port.toRamPorts slot ∨ tblAddr port.toRamPorts slot + 288 ≤ x)
    (hf : x < port.fbAddr ∨ port.fbAddr + 0x200 ≤ x) :
    stage m port.toRamPorts slot lba count command x = m x := by
  rw [stage, writeFis_of_outside (by omega), writeHeader_of_outside (by omega), setFlags_of_outside (by omega),
    clearSlot_of_outside ht hf]

end CmdPort

end WordOS.Ahci
