import Mathlib.Logic.Function.Basic
import WordOS.Kernel.Scheduler
import WordOS.Lib.Words

/-! The interrupt stubs of `idtStub.s`, run on the registers and the memory of the processor. -/

namespace WordOS.Kernel

open Lib.Words

inductive Reg
  | eax | ebx | ecx | edx | esi | edi | ebp | esp
  | cr0 | cr2 | cr3 | eip | cs | eflags
  deriving DecidableEq, Repr

structure Cpu where
  regs : Reg → Word
  mem : Mem

namespace Cpu

def set (c : Cpu) (r : Reg) (v : Word) : Cpu := { c with regs := Function.update c.regs r v }

def push (c : Cpu) (v : Word) : Cpu :=
  { regs := Function.update c.regs .esp (c.regs .esp - 4), mem := write32 c.mem (c.regs .esp - 4) v }

def pop (c : Cpu) (r : Reg) : Cpu := (c.set .esp (c.regs .esp + 4)).set r (read32 c.mem (c.regs .esp))

end Cpu

/-- The instructions of the stubs, operands in the order of the assembler: what is
moved, then where to. -/
inductive Instr
  | cli
  | push (r : Reg)
  | pushImm (v : Word)
  | pushMem (disp : Word) (base : Reg)
  | pop (r : Reg)
  | mov (src dst : Reg)
  | movImm (v : Word) (dst : Reg)
  | load (disp : Word) (base dst : Reg)
  | addImm (v : Word) (dst : Reg)
  | iret
  deriving DecidableEq, Repr

def ifFlag : Word := 0x200

def flagBit (b : Bool) (i : ℕ) : Word := if b then 1 <<< i else 0

/-- EFLAGS after `x + y`: carry, parity, adjust, zero, sign and overflow. -/
def addFlags (flags x y : Word) : Word :=
  let sum := x + y
  (flags &&& ~~~0x8d5) ||| flagBit (sum.ult x) 0
    ||| flagBit ((List.range 8).countP (sum.getLsbD ·) % 2 == 0) 2
    ||| flagBit (decide (16 ≤ (x &&& 0xf) + (y &&& 0xf))) 4 ||| flagBit (sum == 0) 6 ||| flagBit sum.msb 7
    ||| flagBit (x.msb == y.msb && sum.msb != x.msb) 11

def exec (c : Cpu) : Instr → Cpu
  | .cli => c.set .eflags (c.regs .eflags &&& ~~~ifFlag)
  | .push r => c.push (c.regs r)
  | .pushImm v => c.push v
  | .pushMem disp base => c.push (read32 c.mem (c.regs base + disp))
  | .pop r => c.pop r
  | .mov src dst => c.set dst (c.regs src)
  | .movImm v dst => c.set dst v
  | .load disp base dst => c.set dst (read32 c.mem (c.regs base + disp))
  | .addImm v dst =>
    (c.set .eflags (addFlags (c.regs .eflags) (c.regs dst) v)).set dst (c.regs dst + v)
  | .iret => ((c.pop .eip).pop .cs).pop .eflags

/-- The jumps of the stubs lead from one list to the next, so EIP is left alone. -/
def run (is : List Instr) (c : Cpu) : Cpu := is.foldl exec c

inductive GateType
  | interrupt
  | trap
  deriving DecidableEq, Repr

/-- What an interrupt through a gate leaves of EFLAGS: TF, NT, RF and VM go, and IF
through an interrupt gate. -/
def gateFlags (gate : GateType) (flags : Word) : Word :=
  let flags := flags &&& ~~~0x34100
  if gate = .interrupt then flags &&& ~~~ifFlag else flags

/-- What the processor does on an interrupt in ring 0, where no other stack is taken. -/
def deliver (gate : GateType) (entry : Word) (c : Cpu) : Cpu :=
  (((((c.push (c.regs .eflags)).push (c.regs .cs)).push (c.regs .eip)).set .eflags
    (gateFlags gate (c.regs .eflags))).set .cs 0x08).set .eip entry

def irqStub (num : Word) : List Instr := [.cli, .pushImm 10, .pushImm num]

/-- `irq_frame` up to its call of `irq_handler`. -/
def irqFrame : List Instr :=
  [.push .ebp, .push .eax, .push .ebx, .push .ecx, .push .edx, .push .esi, .push .edi,
    .mov .esp .eax, .addImm 0x30 .eax, .push .eax,
    .mov .cr0 .eax, .push .eax, .mov .cr2 .eax, .push .eax, .mov .cr3 .eax, .push .eax,
    .push .esp]

/-- `process_switch_frame` after its call of `irq_handler`, which leaves in EAX the
context to go on with. -/
def processSwitchResume : List Instr :=
  [.load 0xc .eax .esp, .mov .cr3 .ecx, .mov .ecx .cr3,
    .pushMem 0x3c .eax, .pushMem 0x38 .eax, .pushMem 0x34 .eax, .pushMem 0x24 .eax,
    .load 0x4 .eax .ebx, .mov .ebx .cr2, .load 0x8 .eax .ebx, .mov .ebx .cr0,
    .load 0x10 .eax .edi, .load 0x14 .eax .esi, .load 0x18 .eax .edx, .load 0x1c .eax .ecx,
    .load 0x20 .eax .ebx, .load 0x28 .eax .ebp, .pop .eax, .iret]

/-- `irq_frame` after the call is the same but for one load more. -/
def irqResume : List Instr := .load 0 .eax .ebx :: processSwitchResume

def irqStub48 (stackTop : Word) : List Instr :=
  [.cli, .push .eax, .mov .esp .eax, .movImm stackTop .esp]

/-- `process_switch_frame` up to its call of `irq_handler`. -/
def processSwitchFrame : List Instr :=
  [.pushMem 0xc .eax, .pushMem 0x8 .eax, .pushMem 0x4 .eax, .pushImm 0, .pushImm 0x30, .push .ebp,
    .pushMem 0 .eax, .push .ebx, .push .ecx, .push .edx, .push .esi, .push .edi,
    .addImm 0x10 .eax, .push .eax,
    .mov .cr0 .eax, .push .eax, .mov .cr2 .eax, .push .eax, .mov .cr3 .eax, .push .eax,
    .push .esp]

/-- An interrupt other than the timer's, up to the call of `irq_handler`. -/
def irqEntry (gate : GateType) (num entry : Word) (c : Cpu) : Cpu :=
  run (irqStub num ++ irqFrame) (deliver gate entry c)

/-- The interrupt of the timer, up to the call of `irq_handler`; its gate is a trap gate. -/
def timerEntry (stackTop entry : Word) (c : Cpu) : Cpu :=
  run (irqStub48 stackTop ++ processSwitchFrame) (deliver .trap entry c)

def readStatus (m : Mem) (p : Word) : CpuStatus :=
  let field (i : Word) : ℕ := (read32 m (p + i)).toNat
  { cr3 := field 0, cr2 := field 0x4, cr0 := field 0x8, esp := field 0xc, edi := field 0x10,
    esi := field 0x14, edx := field 0x18, ecx := field 0x1c, ebx := field 0x20, eax := field 0x24,
    ebp := field 0x28, isrNo := field 0x2c, isrErr := field 0x30, eip := field 0x34,
    cs := field 0x38, eflags := field 0x3c }

def argument (c : Cpu) : Word := read32 c.mem (c.regs .esp)

def statusOf (c : Cpu) (isrNo isrErr : Word) : CpuStatus :=
  let reg (r : Reg) : ℕ := (c.regs r).toNat
  { cr3 := reg .cr3, cr2 := reg .cr2, cr0 := reg .cr0, esp := reg .esp, edi := reg .edi,
    esi := reg .esi, edx := reg .edx, ecx := reg .ecx, ebx := reg .ebx, eax := reg .eax,
    ebp := reg .ebp, isrNo := isrNo.toNat, isrErr := isrErr.toNat, eip := reg .eip,
    cs := reg .cs, eflags := reg .eflags }

/-- The registers an interrupt is to give back. -/
def Restored (c c' : Cpu) : Prop :=
  ∀ r ∈ [Reg.eax, .ebx, .ecx, .edx, .esi, .edi, .ebp, .esp, .eip, .cs, .eflags], c'.regs r = c.regs r

instance (c c' : Cpu) : Decidable (Restored c c') := inferInstanceAs (Decidable (∀ r ∈ _, _))

end WordOS.Kernel
