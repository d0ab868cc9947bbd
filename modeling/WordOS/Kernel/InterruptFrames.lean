import WordOS.Kernel.Interrupts

/-! The frames the interrupt stubs build: the registers, in the fields of a `cpu_status_t`. -/

namespace WordOS.Kernel

open Lib.Words

/-- The words `ws` lie below `a` on top of the memory `m`, the stack ends with them, and
but for the registers in `gone` the processor is as in `c`. -/
structure Framed (c : Cpu) (m : Mem) (a : Word) (ws : List Word) (gone : List Reg) (u : Cpu) : Prop where
  mem : u.mem = pushes m a ws
  esp : u.regs .esp = a - BitVec.ofNat 32 (4 * ws.length)
  regs : ∀ r ∉ gone, u.regs r = c.regs r

variable {c u : Cpu} {m : Mem} {a p v : Word} {ws : List Word} {gone : List Reg} {r b : Reg}

lemma run_append (is js : List Instr) (c : Cpu) : run (is ++ js) c = run js (run is c) := List.foldl_append

lemma run_cons (i : Instr) (is : List Instr) (c : Cpu) : run (i :: is) c = run is (exec c i) := rfl

@[simp] lemma Cpu.set_self : (c.set r v).regs r = v := Function.update_self ..

lemma Cpu.set_of_ne {q : Reg} (h : q ≠ r) : (c.set r v).regs q = c.regs q := Function.update_of_ne h ..

@[simp] lemma Cpu.set_mem : (c.set r v).mem = c.mem := rfl

lemma Cpu.push_of_ne (h : r ≠ .esp) : (c.push v).regs r = c.regs r := Function.update_of_ne h ..

namespace Framed

lemma start (c : Cpu) : Framed c c.mem (c.regs .esp) [] [.esp] c where
  mem := rfl
  esp := by simp
  regs _ _ := rfl

lemma forget (h : Framed c m a ws gone u) (r : Reg) : Framed c m a ws (r :: gone) u where
  mem := h.mem
  esp := h.esp
  regs _ hq := h.regs _ (List.not_mem_of_not_mem_cons hq)

lemma pushed (h : Framed c m a ws gone u) (hesp : .esp ∈ gone) (v : Word) :
    Framed c m a (ws ++ [v]) gone (u.push v) where
  mem := by
    rw [pushes_concat, ← h.mem, ← h.esp]
    rfl
  esp := by
    have hpush : (u.push v).regs .esp = u.regs .esp - 4 := by simp [Cpu.push]
    rw [hpush, h.esp, List.length_append, List.length_singleton]
    bv_omega
  regs q hq := by
    have hne : q ≠ .esp := fun he => hq (he ▸ hesp)
    rw [Cpu.push_of_ne hne, h.regs q hq]

lemma clobber (h : Framed c m a ws gone u) (hr : r ∈ gone) (hne : r ≠ .esp) (v : Word) :
    Framed c m a ws gone (u.set r v) where
  mem := h.mem
  esp := (Cpu.set_of_ne hne.symm).trans h.esp
  regs q hq := by
    have hq' : q ≠ r := fun he => hq (he ▸ hr)
    rw [Cpu.set_of_ne hq', h.regs q hq]

lemma set (h : Framed c m a ws gone u) (hne : r ≠ .esp) (v : Word) :
    Framed (c.set r v) m a ws gone (u.set r v) where
  mem := h.mem
  esp := (Cpu.set_of_ne hne.symm).trans h.esp
  regs q hq := by
    by_cases hq' : q = r
    · rw [hq', Cpu.set_self, Cpu.set_self]
    · rw [Cpu.set_of_ne hq', Cpu.set_of_ne hq', h.regs q hq]

lemma push (h : Framed c m a ws gone u) (hesp : .esp ∈ gone) (hr : r ∉ gone) :
    Framed c m a (ws ++ [c.regs r]) gone (exec u (.push r)) := by
  rw [← h.regs r hr]
  exact h.pushed hesp (u.regs r)

lemma pushTop (h : Framed c m a ws gone u) (hesp : .esp ∈ gone) :
    Framed c m a (ws ++ [a - BitVec.ofNat 32 (4 * ws.length)]) gone (exec u (.push .esp)) := by
  rw [← h.esp]
  exact h.pushed hesp (u.regs .esp)

lemma pushMem (h : Framed c m a ws gone u) (hesp : .esp ∈ gone) (hb : b ∉ gone) (disp : Word)
    (hv : read32 (pushes m a ws) (c.regs b + disp) = v) :
    Framed c m a (ws ++ [v]) gone (exec u (.pushMem disp b)) := by
  rw [← hv, ← h.mem, ← h.regs b hb]
  exact h.pushed hesp (read32 u.mem (u.regs b + disp))

lemma pushAll (h : Framed c m a ws gone u) (hesp : .esp ∈ gone) (rs : List Reg) (hrs : ∀ r ∈ rs, r ∉ gone) :
    Framed c m a (ws ++ rs.map c.regs) gone (run (rs.map .push) u) := by
  induction rs generalizing u ws with
  | nil => simpa [run] using h
  | cons r rs ih =>
    have hr := hrs r List.mem_cons_self
    have hrest := ih (h.push hesp hr) (fun q hq => hrs q (List.mem_cons_of_mem _ hq))
    rw [List.append_assoc] at hrest
    exact hrest

lemma pushSum (h : Framed c m a ws gone u) (hesp : .esp ∈ gone) (heax : .eax ∈ gone) (hflags : .eflags ∈ gone)
    (disp : Word) (hv : u.regs .eax + disp = v) :
    Framed c m a (ws ++ [v]) gone (run [.addImm disp .eax, .push .eax] u) := by
  have hadd := (h.clobber hflags (by decide) (addFlags (u.regs .eflags) (u.regs .eax) disp)).clobber heax (by decide)
    (u.regs .eax + disp)
  rw [← hv]
  exact hadd.pushed hesp (u.regs .eax + disp)

lemma switch (h : Framed c m a ws gone u) (hesp : .esp ∈ gone) (s : Word) :
    Framed (c.set .eax (a - BitVec.ofNat 32 (4 * ws.length))) (pushes m a ws) s [] gone
      (run [.mov .esp .eax, .movImm s .esp] u) where
  mem := h.mem
  esp := by simp [run, exec]
  regs q hq := by
    have hne : q ≠ .esp := fun he => hq (he ▸ hesp)
    have hset := (h.set (r := .eax) (by decide) (u.regs .esp)).regs q hq
    rw [h.esp] at hset
    exact (Cpu.set_of_ne hne).trans (by rw [← hset, ← h.esp]; rfl)

lemma pushControls (h : Framed c m a ws gone u) (hesp : .esp ∈ gone) (heax : .eax ∈ gone) (rs : List Reg)
    (hrs : ∀ r ∈ rs, r ∉ gone) :
    Framed c m a (ws ++ rs.map c.regs) gone (run (rs.flatMap fun r => [.mov r .eax, .push .eax]) u) := by
  induction rs generalizing u ws with
  | nil => simpa [run] using h
  | cons r rs ih =>
    have hr := hrs r List.mem_cons_self
    have hstep := (h.clobber heax (by decide) (c.regs r)).pushed hesp (c.regs r)
    have hval : exec (exec u (.mov r .eax)) (.push .eax) = (u.set .eax (c.regs r)).push (c.regs r) := by
      simp only [exec, Cpu.set_self, h.regs r hr]
    rw [← hval] at hstep
    have hrest := ih hstep (fun q hq => hrs q (List.mem_cons_of_mem _ hq))
    rw [List.append_assoc] at hrest
    exact hrest

end Framed

/-- A frame from the top of its stack down. -/
def frameOf (c : Cpu) (isrNo isrErr : Word) : List Word :=
  [c.regs .eflags, c.regs .cs, c.regs .eip, isrErr, isrNo, c.regs .ebp, c.regs .eax, c.regs .ebx, c.regs .ecx,
    c.regs .edx, c.regs .esi, c.regs .edi, c.regs .esp, c.regs .cr0, c.regs .cr2, c.regs .cr3]

lemma deliver_framed (gate : GateType) (entry : Word) (c : Cpu) :
    Framed c c.mem (c.regs .esp) [c.regs .eflags, c.regs .cs, c.regs .eip] [.eip, .cs, .eflags, .esp]
      (deliver gate entry c) := by
  have hstart := (((Framed.start c).forget .eflags).forget .cs).forget .eip
  have hpushed := ((hstart.pushed (by decide) (c.regs .eflags)).pushed (by decide) (c.regs .cs)).pushed (by decide)
    (c.regs .eip)
  apply Framed.clobber _ (by decide) (by decide)
  apply Framed.clobber _ (by decide) (by decide)
  apply Framed.clobber _ (by decide) (by decide)
  exact hpushed

lemma irqEntry_framed (gate : GateType) (num entry : Word) (c : Cpu) :
    Framed c c.mem (c.regs .esp) (frameOf c num 10 ++ [c.regs .esp - 64]) [.eax, .eip, .cs, .eflags, .esp]
      (irqEntry gate num entry c) := by
  have hcli := (deliver_framed gate entry c).clobber (r := .eflags) (by decide) (by decide)
    ((deliver gate entry c).regs .eflags &&& ~~~ifFlag)
  have hnum := (hcli.pushed (by decide) 10).pushed (by decide) num
  have hregs := (hnum.pushAll (by decide) [.ebp, .eax, .ebx, .ecx, .edx, .esi, .edi] (by decide)).forget .eax
  have hmov := hregs.clobber (r := .eax) (by decide) (by decide) (c.regs .esp - 48)
  have hsum := hmov.pushSum (by decide) (by decide) (by decide) 0x30 (v := c.regs .esp) (by simp)
  have hctl := hsum.pushControls (by decide) (by decide) [.cr0, .cr2, .cr3] (by decide)
  have htop := hctl.pushTop (by decide)
  have hesp : c.regs .esp - 48 = _ := hregs.esp.symm
  rw [hesp] at htop
  exact htop

/-- A word of the interrupted stack, read through EAX after the pushes of `ws` on another one. -/
lemma pushSaved {e s d : Word} {top : List Word} {i : ℕ} (h : Framed c (pushes m e top) s ws gone u)
    (hesp : .esp ∈ gone) (heax : .eax ∉ gone) (hi : i < top.length) (hfit : 4 * top.length < 2 ^ 32)
    (haddr : c.regs .eax + d = e - BitVec.ofNat 32 (4 * (i + 1)))
    (hclear : Clear s (4 * ws.length) (c.regs .eax + d) 4) :
    Framed c (pushes m e top) s (ws ++ [top[i]]) gone (exec u (.pushMem d .eax)) := by
  apply h.pushMem hesp heax
  rw [read32_pushes_of_clear hclear, haddr]
  exact read32_pushes hfit hi

/-- The words of the interrupted stack are read before the pushes come over them when the
sixteen bytes there miss the first twelve of the frame. -/
lemma timerEntry_framed {stackTop : Word} (entry : Word) (hclear : Clear (c.regs .esp) 16 (stackTop - 12) 12) :
    ∃ m, Framed (c.set .eax (c.regs .esp - 16)) m stackTop (frameOf c 0x30 0 ++ [stackTop - 64])
      [.eax, .eip, .cs, .eflags, .esp] (timerEntry stackTop entry c) := by
  unfold Clear at hclear
  have hcli := (deliver_framed .trap entry c).clobber (r := .eflags) (by decide) (by decide)
    ((deliver .trap entry c).regs .eflags &&& ~~~ifFlag)
  have hsaved := hcli.push (r := .eax) (by decide) (by decide)
  have hswitch := hsaved.switch (by decide) stackTop
  have hflags := pushSaved (i := 0) (d := 0xc) hswitch (by decide) (by decide) (by simp) (by simp)
    (by simp; bv_omega) (by simp [Clear]; bv_omega)
  have hcs := pushSaved (i := 1) (d := 0x8) hflags (by decide) (by decide) (by simp) (by simp)
    (by simp; bv_omega) (by simp [Clear]; bv_omega)
  have heip := pushSaved (i := 2) (d := 0x4) hcs (by decide) (by decide) (by simp) (by simp)
    (by simp; bv_omega) (by simp [Clear]; bv_omega)
  have hnum := ((heip.pushed (by decide) 0).pushed (by decide) 0x30).push (r := .ebp) (by decide) (by decide)
  have htrue := pushSaved (i := 3) (d := 0) hnum (by decide) (by decide) (by simp) (by simp)
    (by simp) (by simp [Clear]; bv_omega)
  have hregs := (htrue.pushAll (by decide) [.ebx, .ecx, .edx, .esi, .edi] (by decide))
  have hesp := hregs.regs .eax (by decide)
  have hsum := (hregs.forget .eax).pushSum (v := c.regs .esp) (by decide) (by decide) (by decide) 0x10 (by
    rw [hesp]
    simp)
  have hctl := hsum.pushControls (by decide) (by decide) [.cr0, .cr2, .cr3] (by decide)
  exact ⟨_, hctl.pushTop (by decide)⟩

def fieldIndex : Reg → ℕ
  | .cr3 => 0 | .cr2 => 1 | .cr0 => 2 | .esp => 3 | .edi => 4 | .esi => 5 | .edx => 6 | .ecx => 7
  | .ebx => 8 | .eax => 9 | .ebp => 10 | .eip => 13 | .cs => 14 | .eflags => 15

def fieldOffset (r : Reg) : Word := BitVec.ofNat 32 (4 * fieldIndex r)

lemma fieldIndex_bounds (r : Reg) : fieldIndex r < 16 ∧ fieldIndex r ≠ 12 := by
  cases r <;> decide

lemma readStatus_pushes (c : Cpu) (isrNo isrErr : Word) (m : Mem) (a : Word) :
    readStatus (pushes m a (frameOf c isrNo isrErr ++ [v])) (a - 64) = statusOf c isrNo isrErr := by
  have hfield : ∀ i (hi : i < 16), read32 (pushes m a (frameOf c isrNo isrErr ++ [v]))
      (a - 64 + BitVec.ofNat 32 (60 - 4 * i)) = (frameOf c isrNo isrErr).get ⟨i, hi⟩ := by
    intro i hi
    have haddr : a - 64 + BitVec.ofNat 32 (60 - 4 * i) = a - BitVec.ofNat 32 (4 * (i + 1)) := by bv_omega
    have hlen : i < (frameOf c isrNo isrErr ++ [v]).length := by
      simp [frameOf]
      omega
    rw [haddr, read32_pushes (by simp [frameOf]) hlen]
    exact List.getElem_append_left hi
  simp only [readStatus, statusOf, CpuStatus.mk.injEq]
  exact ⟨congrArg _ (hfield 15 (by decide)), congrArg _ (hfield 14 (by decide)), congrArg _ (hfield 13 (by decide)),
    congrArg _ (hfield 12 (by decide)), congrArg _ (hfield 11 (by decide)), congrArg _ (hfield 10 (by decide)),
    congrArg _ (hfield 9 (by decide)), congrArg _ (hfield 8 (by decide)), congrArg _ (hfield 7 (by decide)),
    congrArg _ (hfield 6 (by decide)), congrArg _ (hfield 5 (by decide)), congrArg _ (hfield 4 (by decide)),
    congrArg _ (hfield 3 (by decide)), congrArg _ (hfield 2 (by decide)), congrArg _ (hfield 1 (by decide)),
    congrArg _ (hfield 0 (by decide))⟩

lemma Framed.argument {d : Cpu} {isrNo isrErr : Word} (h : Framed c m a (frameOf d isrNo isrErr ++ [v]) gone u) :
    argument u = v ∧ readStatus u.mem (a - 64) = statusOf d isrNo isrErr := by
  constructor
  · rw [Kernel.argument, h.esp, h.mem]
    exact read32_pushes (i := 16) (by simp [frameOf]) (by simp [frameOf])
  · rw [h.mem]
    exact readStatus_pushes d isrNo isrErr m a

lemma read_of_status {isrNo isrErr : Word} (h : readStatus m p = statusOf c isrNo isrErr) (r : Reg) :
    read32 m (p + fieldOffset r) = c.regs r := by
  simp only [readStatus, statusOf, CpuStatus.mk.injEq] at h
  obtain ⟨h0, h1, h2, h3, h4, h5, h6, h7, h8, h9, h10, -, -, h11, h12, h13⟩ := h
  apply BitVec.eq_of_toNat_eq
  cases r with
  | cr3 => exact h0
  | cr2 => exact h1
  | cr0 => exact h2
  | esp => exact h3
  | edi => exact h4
  | esi => exact h5
  | edx => exact h6
  | ecx => exact h7
  | ebx => exact h8
  | eax => exact h9
  | ebp => exact h10
  | eip => exact h11
  | cs => exact h12
  | eflags => exact h13

end WordOS.Kernel
