import WordOS.Ahci.CommandFis

/-! The slot of a command: the one prepared, the one issued and the one waited for. -/

namespace WordOS.Ahci

/-- The store sets the bit of `slot` and no other, the bit was clear before, and the wait tests it. -/
def IssuesSlot (r : PortReads) (slot : ℕ) : PostEnd → Prop
  | .issued before written awaited _ =>
    r.pxsact.getLsbD slot = false ∧ (r.pxci 0).getLsbD slot = false ∧ written &&& ~~~before = 1#32 <<< slot ∧
      awaited = 1#32 <<< slot
  | _ => False

variable {slots : BitVec 32} {r : PortReads}

lemma and_one_eq_zero : slots &&& 1#32 = 0 ↔ slots.getLsbD 0 = false := by
  have h := and_bit_ne_zero (x := slots) (i := 0) (by decide)
  rw [BitVec.shiftLeft_zero] at h
  rw [← not_iff_not, ← ne_eq, Bool.not_eq_false]
  exact h

/-- The first clear bit is found. -/
lemma findCmdSlotFrom_some {left i k : ℕ} (hk : k < left) (hbit : slots.getLsbD k = false)
    (hlow : ∀ j < k, slots.getLsbD j = true) : findCmdSlotFrom slots left i = some (i + k) := by
  induction left generalizing slots i k with
  | zero => omega
  | succ left ih =>
    rw [findCmdSlotFrom]
    cases k with
    | zero => rw [if_pos (and_one_eq_zero.mpr hbit), Nat.add_zero]
    | succ k =>
      have hset : ¬ slots &&& 1#32 = 0 := by
        rw [and_one_eq_zero, hlow 0 (Nat.succ_pos k)]
        decide
      have hshift : ∀ j, (slots >>> 1).getLsbD j = slots.getLsbD (j + 1) := by
        intro j
        rw [BitVec.getLsbD_ushiftRight, Nat.add_comm]
      have hrest : findCmdSlotFrom (slots >>> 1) left (i + 1) = some (i + 1 + k) := by
        refine ih (by omega) ?_ fun j hj => ?_
        · rw [hshift]
          exact hbit
        · rw [hshift]
          exact hlow (j + 1) (by omega)
      rw [if_neg hset, hrest, Nat.add_assoc, Nat.add_comm 1 k]

lemma exists_findCmdSlot (hfree : ∃ i < 32, (r.pxsact ||| r.pxci 0).getLsbD i = false) :
    ∃ slot < 32, findCmdSlot r = some slot ∧ (r.pxsact ||| r.pxci 0).getLsbD slot = false ∧
      ∀ j < slot, (r.pxsact ||| r.pxci 0).getLsbD j = true := by
  have hfirst := Nat.find_spec hfree
  have hlow : ∀ j < Nat.find hfree, (r.pxsact ||| r.pxci 0).getLsbD j = true := by
    intro j hj
    have hmin := Nat.find_min hfree hj
    simp only [not_and, Bool.not_eq_false] at hmin
    exact hmin (by omega)
  refine ⟨Nat.find hfree, hfirst.left, ?_, hfirst.right, hlow⟩
  rw [findCmdSlot, findCmdSlotFrom_some hfirst.left hfirst.right hlow, Nat.zero_add]

/-- The store adds bit 0, if it is clear. -/
lemma added_bit {before : BitVec 32} (h : before.getLsbD 0 = false) : (before ||| 1#32) &&& ~~~before = 1#32 <<< 0 := by
  apply BitVec.eq_of_getLsbD_eq
  intro i hi
  rw [BitVec.shiftLeft_zero, BitVec.getLsbD_and, BitVec.getLsbD_or, BitVec.getLsbD_not]
  cases i with
  | zero =>
    rw [h]
    rfl
  | succ i =>
    have hone : (1#32).getLsbD (i + 1) = false := by simp [BitVec.getLsbD_one]
    rw [hone, Bool.or_false]
    cases before.getLsbD (i + 1) <;> simp

lemma clear_at_issue {i : ℕ} (hi : i < 32) (h : (r.pxci 0).getLsbD i = false) : (r.pxci 1).getLsbD i = false := by
  have hc := congrArg (fun x => x.getLsbD i) r.clears
  simp only [BitVec.getLsbD_and, BitVec.getLsbD_not, h, hi] at hc
  simpa using hc

lemma issuesSlot_iff {slot : ℕ} (hs : slot < 32) (hbit : (r.pxsact ||| r.pxci 0).getLsbD slot = false)
    (hlow : ∀ j < slot, (r.pxsact ||| r.pxci 0).getLsbD j = true) :
    IssuesSlot r slot (issue r slot) ↔ (r.pxsact ||| r.pxci 0).getLsbD 0 = false := by
  rw [BitVec.getLsbD_or, Bool.or_eq_false_iff] at hbit
  constructor
  · rintro ⟨-, -, hadded, -⟩
    have hslot := congrArg (fun x => x.getLsbD slot) hadded
    cases slot with
    | zero => rw [BitVec.getLsbD_or, hbit.left, hbit.right]; rfl
    | succ slot => simp [hs] at hslot
  · intro hzero
    cases slot with
    | zero => exact ⟨hbit.left, hbit.right, added_bit (clear_at_issue hs hbit.right), rfl⟩
    | succ slot =>
      rw [hlow 0 (Nat.succ_pos slot)] at hzero
      cases hzero

theorem issues_slot_iff (translate : ℕ → ℕ) (r : PortReads) (m : Lib.Bytes.Mem) (port : CmdPort) (lba count buffer command : ℕ)
    (hfree : ∃ i < 32, (r.pxsact ||| r.pxci 0).getLsbD i = false) (hc : Supported command) :
    ∃ slot < 32, findCmdSlot r = some slot ∧
      (IssuesSlot r slot (postAtaCommand translate r m port.toRamPorts lba count buffer command).2 ↔
        (r.pxsact ||| r.pxci 0).getLsbD 0 = false) := by
  obtain ⟨slot, hlt, hs, hbit, hlow⟩ := exists_findCmdSlot hfree
  refine ⟨slot, hlt, hs, ?_⟩
  rw [postAtaCommand_supported hs hc]
  exact issuesSlot_iff hlt hbit hlow

theorem issues_slot_iff_idle :
    ∃ slot < 32, findCmdSlot idleReads = some slot ∧
      (IssuesSlot idleReads slot (postAtaCommand id idleReads (fun _ => 0) firstPort.toRamPorts 0 1 0 ATA_CMD_DMA_READ_EXT).2 ↔
        (idleReads.pxsact ||| idleReads.pxci 0).getLsbD 0 = false) :=
  issues_slot_iff id idleReads (fun _ => 0) firstPort 0 1 0 ATA_CMD_DMA_READ_EXT ⟨0, by decide, rfl⟩ (Or.inl rfl)

/-- Slot 0 is busy, and slot 1 is prepared. -/
def busyReads : PortReads := ⟨0, fun _ => 1, rfl⟩

theorem issues_slot_counterexample :
    ¬ ∀ (translate : ℕ → ℕ) (r : PortReads) (m : Lib.Bytes.Mem) (port : CmdPort) (lba count buffer command slot : ℕ),
      findCmdSlot r = some slot → Supported command →
        IssuesSlot r slot (postAtaCommand translate r m port.toRamPorts lba count buffer command).2 := by
  intro h
  have hc : Supported ATA_CMD_DMA_READ_EXT := Or.inl rfl
  have hs : findCmdSlot busyReads = some 1 := rfl
  have hh := h id busyReads (fun _ => 0) firstPort 0 1 0 ATA_CMD_DMA_READ_EXT 1 hs hc
  rw [postAtaCommand_supported hs hc] at hh
  have hlow : ∀ j < 1, (busyReads.pxsact ||| busyReads.pxci 0).getLsbD j = true := by decide
  exact absurd ((issuesSlot_iff (by decide) rfl hlow).mp hh) (by decide)

end WordOS.Ahci
