import WordOS.Kernel.InterruptReturn

/-! The system call: `irq_stub_128` of `idtStub.s`, which runs `kernel_stack_fn` on the stack of the kernel. -/

namespace WordOS.Kernel

open Lib.Words

namespace Cpu

def store (c : Cpu) (a v : Word) : Cpu := { c with mem := write32 c.mem a v }

def load (c : Cpu) (a : Word) (r : Reg) : Cpu := c.set r (read32 c.mem a)

end Cpu

variable {cells : StackCells} {c f u : Cpu} {gate : GateType} {entry ret : Word}

end WordOS.Kernel
