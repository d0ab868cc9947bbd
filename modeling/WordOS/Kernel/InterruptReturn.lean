import Mathlib.Tactic.IntervalCases
import WordOS.Kernel.InterruptFrames

/-! What the interrupt stubs give back: the registers in the context their handler returns. -/

namespace WordOS.Kernel

open Lib.Words

variable {c u : Cpu} {m : Mem} {a p : Word} {r : Reg}

/-- The context at `p` outlives the words pushed below `e`: they are its own, or miss it. -/
def Outlives (p e : Word) : Prop := e = p + 64 ∨ Clear e 16 (p + 16) 48

instance (p e : Word) : Decidable (Outlives p e) := inferInstanceAs (Decidable (_ ∨ _))

def returnWords (c : Cpu) : List Word := [c.regs .eflags, c.regs .cs, c.regs .eip, c.regs .eax]

lemma read32_outlives (hread : ∀ r, read32 m (p + fieldOffset r) = c.regs r) (h : Outlives p a)
    (hr : 4 ≤ fieldIndex r) {k : ℕ} (hk : k ≤ 4) :
    read32 (pushes m a ((returnWords c).take k)) (p + fieldOffset r) = c.regs r := by
  obtain ⟨hlt, hne⟩ := fieldIndex_bounds r
  rw [← hread r]
  unfold fieldOffset
  rcases h with rfl | h
  · have hflags : write32 m (p + 64 - 4) (c.regs .eflags) = m := by
      have haddr : p + 64 - 4 = p + fieldOffset .eflags := by simp [fieldOffset, fieldIndex]; bv_omega
      rw [← hread .eflags, haddr, write32_read32]
    have hcs : write32 m (p + 64 - 4 - 4) (c.regs .cs) = m := by
      have haddr : p + 64 - 4 - 4 = p + fieldOffset .cs := by simp [fieldOffset, fieldIndex]; bv_omega
      rw [← hread .cs, haddr, write32_read32]
    have heip : write32 m (p + 64 - 4 - 4 - 4) (c.regs .eip) = m := by
      have haddr : p + 64 - 4 - 4 - 4 = p + fieldOffset .eip := by simp [fieldOffset, fieldIndex]; bv_omega
      rw [← hread .eip, haddr, write32_read32]
    have heax : Apart (p + 64 - 4 - 4 - 4 - 4) (p + BitVec.ofNat 32 (4 * fieldIndex r)) := by
      constructor <;> bv_omega
    interval_cases k
    · rfl
    · rw [returnWords, List.take_succ_cons, List.take_zero, pushes, pushes, hflags]
    · simp only [returnWords, List.take_succ_cons, List.take_zero, pushes, hflags, hcs]
    · simp only [returnWords, List.take_succ_cons, List.take_zero, pushes, hflags, hcs, heip]
    · simp only [returnWords, List.take_succ_cons, List.take_zero, pushes, hflags, hcs, heip]
      exact read32_write32 heax
  · apply read32_pushes_of_clear
    have hlen : ((returnWords c).take k).length ≤ 4 := List.length_take_le' _ _
    unfold Clear at h ⊢
    bv_omega

lemma Framed.enter (u : Cpu) (e : Word) : Framed u u.mem e [] [.esp] (u.set .esp e) where
  mem := rfl
  esp := by simp
  regs _ hq := Cpu.set_of_ne (mt List.mem_singleton.mpr hq)

lemma resume_stack (hread : ∀ r, read32 u.mem (u.regs .eax + fieldOffset r) = c.regs r)
    (h : Outlives (u.regs .eax) (c.regs .esp)) :
    Framed u u.mem (c.regs .esp) (returnWords c) [.cr3, .ecx, .esp] (run (processSwitchResume.take 7) u) := by
  have hesp := ((Framed.enter u (c.regs .esp)).forget .ecx).forget .cr3
  have hecx := hesp.clobber (r := .ecx) (by decide) (by decide) (u.regs .cr3)
  have hcr3 := hecx.clobber (r := .cr3) (by decide) (by decide) (u.regs .cr3)
  have hflags := hcr3.pushMem (by decide) (by decide) (b := .eax) 0x3c
    (read32_outlives hread h (r := .eflags) (by decide) (k := 0) (by decide))
  have hcs := hflags.pushMem (by decide) (by decide) (b := .eax) 0x38
    (read32_outlives hread h (r := .cs) (by decide) (k := 1) (by decide))
  have heip := hcs.pushMem (by decide) (by decide) (b := .eax) 0x34
    (read32_outlives hread h (r := .eip) (by decide) (k := 2) (by decide))
  have heax := heip.pushMem (by decide) (by decide) (b := .eax) 0x24
    (read32_outlives hread h (r := .eax) (by decide) (k := 3) (by decide))
  have hload : exec u (.load 0xc .eax .esp) = u.set .esp (c.regs .esp) := congrArg (u.set .esp) (hread .esp)
  rw [← hload] at heax
  exact heax

lemma resume_loads (u : Cpu) :
    let w := run ((processSwitchResume.drop 7).take 10) u
    w.mem = u.mem ∧ w.regs .esp = u.regs .esp ∧
      ∀ r ∈ [Reg.edi, .esi, .edx, .ecx, .ebx, .ebp], w.regs r = read32 u.mem (u.regs .eax + fieldOffset r) := by
  intro w
  refine ⟨rfl, rfl, ?_⟩
  simp only [List.forall_mem_cons]
  exact ⟨rfl, rfl, rfl, rfl, rfl, rfl, List.forall_mem_nil _⟩

lemma resume_return (hmem : u.mem = pushes m a (returnWords c)) (hesp : u.regs .esp = a - 16) :
    let w := run (processSwitchResume.drop 17) u
    w.regs .esp = a ∧ (∀ r ∈ [Reg.eax, .eip, .cs, .eflags], w.regs r = c.regs r) ∧
      ∀ r ∉ [Reg.esp, .eax, .eip, .cs, .eflags], w.regs r = u.regs r := by
  have hword : ∀ i (hi : i < 4), read32 u.mem (a - BitVec.ofNat 32 (4 * (i + 1))) = (returnWords c).get ⟨i, hi⟩ := by
    intro i hi
    rw [hmem]
    exact read32_pushes (by simp [returnWords]) hi
  intro w
  have heax : w.regs .eax = read32 u.mem (u.regs .esp) := rfl
  have heip : w.regs .eip = read32 u.mem (u.regs .esp + 4) := rfl
  have hcs : w.regs .cs = read32 u.mem (u.regs .esp + 4 + 4) := rfl
  have hflags : w.regs .eflags = read32 u.mem (u.regs .esp + 4 + 4 + 4) := rfl
  have htop : w.regs .esp = u.regs .esp + 4 + 4 + 4 + 4 := rfl
  refine ⟨?_, ?_, ?_⟩
  · rw [htop, hesp]
    bv_omega
  · simp only [List.forall_mem_cons]
    refine ⟨?_, ?_, ?_, ?_, List.forall_mem_nil _⟩
    · rw [heax, hesp]
      exact hword 3 (by decide)
    · rw [heip, hesp, show a - 16 + 4 = a - BitVec.ofNat 32 (4 * (2 + 1)) by bv_omega]
      exact hword 2 (by decide)
    · rw [hcs, hesp, show a - 16 + 4 + 4 = a - BitVec.ofNat 32 (4 * (1 + 1)) by bv_omega]
      exact hword 1 (by decide)
    · rw [hflags, hesp, show a - 16 + 4 + 4 + 4 = a - BitVec.ofNat 32 (4 * (0 + 1)) by bv_omega]
      exact hword 0 (by decide)
  · intro r hr
    cases r <;> first | rfl | exact absurd (by decide) hr

lemma resume_restores {isrNo isrErr : Word} (hstatus : readStatus u.mem (u.regs .eax) = statusOf c isrNo isrErr)
    (h : Outlives (u.regs .eax) (c.regs .esp)) : Restored c (run processSwitchResume u) := by
  have hread := read_of_status hstatus
  have hparts : processSwitchResume = processSwitchResume.take 7 ++ (processSwitchResume.drop 7).take 10
      ++ processSwitchResume.drop 17 := rfl
  rw [hparts, run_append, run_append]
  have hstack := resume_stack hread h
  generalize run (processSwitchResume.take 7) u = v at hstack ⊢
  obtain ⟨hmem, hesp, hloads⟩ := resume_loads v
  generalize run ((processSwitchResume.drop 7).take 10) v = w at hmem hesp hloads ⊢
  obtain ⟨htop, htaken, hkept⟩ := resume_return (c := c) (hmem.trans hstack.mem) (hesp.trans hstack.esp)
  have hfield : ∀ r ∈ [Reg.edi, .esi, .edx, .ecx, .ebx, .ebp], w.regs r = c.regs r := by
    intro r hr
    have hidx : 4 ≤ fieldIndex r := by
      revert r
      decide
    rw [hloads r hr, hstack.mem, hstack.regs .eax (by decide)]
    exact read32_outlives hread h hidx (k := 4) (by decide)
  intro r hr
  cases r with
  | esp => exact htop
  | eax | eip | cs | eflags => exact htaken _ (by decide)
  | ebx | ecx | edx | esi | edi | ebp => exact (hkept _ (by decide)).trans (hfield _ (by decide))
  | cr0 | cr2 | cr3 => exact absurd hr (by decide)

lemma irqResume_restores {isrNo isrErr : Word} (hstatus : readStatus u.mem (u.regs .eax) = statusOf c isrNo isrErr)
    (h : Outlives (u.regs .eax) (c.regs .esp)) : Restored c (run irqResume u) := by
  have heax : (exec u (.load 0 .eax .ebx)).regs .eax = u.regs .eax := Cpu.set_of_ne (by decide)
  have hmem : (exec u (.load 0 .eax .ebx)).mem = u.mem := rfl
  rw [irqResume, run_cons]
  apply resume_restores
  · rw [hmem, heax]
    exact hstatus
  · rw [heax]
    exact h

/-- Every interrupt hands `irq_handler` the registers in the fields of their names. It
gives them back from the same context, and the timer's from any copy that outlives the
return words, if the timer did not find the stack of its frame in use below ESP. -/
theorem interrupts_restore (c : Cpu) (stackTop entry : Word) :
    (∀ gate num, let f := irqEntry gate num entry c
      readStatus f.mem (argument f) = statusOf c num 10 ∧
        ∀ u, u.regs .eax = argument f → readStatus u.mem (argument f) = readStatus f.mem (argument f) →
          Restored c (run irqResume u)) ∧
    (Clear (c.regs .esp) 16 (stackTop - 12) 12 → let f := timerEntry stackTop entry c
      readStatus f.mem (argument f) = statusOf c 0x30 0 ∧
        ∀ u, readStatus u.mem (u.regs .eax) = readStatus f.mem (argument f) →
          Outlives (u.regs .eax) (c.regs .esp) → Restored c (run processSwitchResume u)) := by
  constructor
  · intro gate num f
    obtain ⟨harg, hstatus⟩ := (irqEntry_framed gate num entry c).argument
    rw [← harg] at hstatus
    refine ⟨hstatus, ?_⟩
    intro u heax hcopy
    apply irqResume_restores
    · rw [heax, hcopy, hstatus]
    · left
      rw [heax, harg]
      bv_omega
  · intro hclear f
    obtain ⟨m, hframed⟩ := timerEntry_framed entry hclear
    obtain ⟨harg, hstatus⟩ := hframed.argument
    rw [← harg] at hstatus
    refine ⟨hstatus, ?_⟩
    intro u hcopy houtlives
    exact resume_restores (hcopy.trans hstatus) houtlives

def sampleCpu (esp : Word) : Cpu where
  regs
    | .eax => 0x11111111 | .ebx => 0x22222222 | .ecx => 0x33333333 | .edx => 0x44444444 | .esi => 0x55555555
    | .edi => 0x66666666 | .ebp => 0x77777777 | .esp => esp | .cr0 => 0x88888888 | .cr2 => 0x99999999
    | .cr3 => 0xaaaaaaaa | .eip => 0xbbbbbbbb | .cs => 0xcccc | .eflags => 0xdddddddd
  mem _ := 0

/-- What the timer gives back when its handler returns the context it was given. -/
def timerRound (stackTop : Word) (c : Cpu) : Cpu :=
  let f := timerEntry stackTop 0 c
  run processSwitchResume (f.set .eax (argument f))

/-- A copy of the context that the handler left at `p`. -/
def copyAt (p : Word) (c : Cpu) : Cpu where
  regs := Function.update c.regs .eax p
  mem := pushes c.mem (p + 64) (frameOf c 0x30 0)

theorem interrupts_restore_apart :
    let c := sampleCpu 0x3000
    let f := irqEntry .interrupt 49 0 c
    Restored c (run irqResume (f.set .eax (argument f))) ∧ Restored c (timerRound 0x1000 c) := by
  intro c f
  have h := interrupts_restore c 0x1000 0
  constructor
  · apply (h.1 .interrupt 49).2
    · exact Cpu.set_self
    · rw [Cpu.set_mem]
  · apply (h.2 (by decide)).2
    · rw [Cpu.set_self, Cpu.set_mem]
    · decide

/-- A timer interrupt with ESP from 44 bytes below the stack top of its frame to 12 above
it, and a copy of the context that the return words come over. -/
theorem interrupts_restore_near :
    (∀ i < 15, let c := sampleCpu (0x1000 - 44 + BitVec.ofNat 32 (4 * i)); ¬Restored c (timerRound 0x1000 c)) ∧
      let c := sampleCpu 0x3000
      let f := timerEntry 0x1000 0 c
      let u := copyAt 0x2fe0 c
      readStatus u.mem (u.regs .eax) = readStatus f.mem (argument f) ∧ ¬Restored c (run processSwitchResume u) := by
  decide +kernel

end WordOS.Kernel
