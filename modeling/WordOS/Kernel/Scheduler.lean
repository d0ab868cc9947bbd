import WordOS.Machine
import WordOS.Lib.LinkedList

/-! The round-robin scheduler of `scheduler.c`, on process records linked by pointers. -/

namespace WordOS.Kernel

open Machine

/-- `0` is NULL. -/
abbrev Ptr := ℕ

inductive ProcessStatus
  | ready
  | running
  | idle
  | dead
  deriving DecidableEq, Repr

structure CpuStatus where
  cr3 : ℕ
  cr2 : ℕ
  cr0 : ℕ
  esp : ℕ
  edi : ℕ
  esi : ℕ
  edx : ℕ
  ecx : ℕ
  ebx : ℕ
  eax : ℕ
  ebp : ℕ
  isrNo : ℕ
  isrErr : ℕ
  eip : ℕ
  cs : ℕ
  eflags : ℕ
  deriving DecidableEq, Repr

structure Process where
  pid : ℕ
  status : ProcessStatus
  context : Ptr
  vmmObj : Ptr
  next : Ptr
  deriving DecidableEq, Repr

/-- The globals of `scheduler.c`, the memory of process records and saved contexts, and
what went to `kfree`, which leaves the bytes of a block as they are. -/
@[ext]
structure Sched where
  procs : Ptr → Process
  contexts : Ptr → CpuStatus
  processListHead : Ptr
  currentProcess : Ptr
  idleProcess : Ptr
  initialized : Bool
  nextFreePid : ℕ
  currentVmm : Ptr
  freed : List Ptr

namespace Sched

def load (s : Sched) (p : Ptr) : Exec Process :=
  if p = 0 then .error .fault else .ok (s.procs p)

def put (s : Sched) (p : Ptr) (f : Process → Process) : Sched :=
  { s with procs := Function.update s.procs p (f (s.procs p)) }

def modify (s : Sched) (p : Ptr) (f : Process → Process) : Exec Sched :=
  if p = 0 then .error .fault else .ok (s.put p f)

end Sched

def Process.setStatus (st : ProcessStatus) (p : Process) : Process := { p with status := st }

def Process.setNext (q : Ptr) (p : Process) : Process := { p with next := q }

def kfree (s : Sched) (p : Ptr) : Sched := { s with freed := p :: s.freed }

/-- Of `set_current_vmm` what the scheduler sees; it reads `new_vmm`, which must not be NULL. -/
def setCurrentVmm (s : Sched) (newVmm : Ptr) : Exec Sched :=
  if newVmm = 0 then .error .fault else .ok { s with currentVmm := newVmm }

def setCurrentProcessIdle (s : Sched) : Exec Sched :=
  s.modify s.currentProcess (·.setStatus .idle)

def lastProcess : ℕ → Sched → (current : Ptr) → Exec Ptr
  | 0, _, _ => .error .fuel
  | fuel + 1, s, current => do
    let p ← s.load current
    if p.next = 0 then return current else lastProcess fuel s p.next

def addProcess (fuel : ℕ) (s : Sched) (process : Ptr) : Exec Sched := do
  if s.processListHead = 0 then return { s with processListHead := process }
  let current ← lastProcess fuel s s.processListHead
  s.modify current (·.setNext process)

/-- The search of `delete_process`, from `prev` on. -/
def prevProcess : ℕ → Sched → (process prev : Ptr) → Exec Ptr
  | 0, _, _, _ => .error .fuel
  | fuel + 1, s, process, prev => do
    let p ← s.load prev
    if p.next = 0 ∨ p.next = process then return prev else prevProcess fuel s process p.next

def deleteProcess (fuel : ℕ) (s : Sched) (process : Ptr) : Exec Sched := do
  if s.processListHead = process then
    let p ← s.load process
    return kfree { s with processListHead := p.next } process
  else
    let prev ← prevProcess fuel s process s.processListHead
    let p ← s.load process
    let s ← s.modify prev (·.setNext p.next)
    return kfree (kfree s p.context) process

def killCurrentProcess (s : Sched) : Exec Sched := do
  let s ← s.modify s.currentProcess (·.setStatus .dead)
  s.modify s.currentProcess (·.setNext 0)

def PRIV_NO_ADD : ℕ := 2

/-- A process record at `process`, and `context` where it points to. -/
def writeProcess (s : Sched) (process : Ptr) (record : Process) (context : CpuStatus) : Sched :=
  { s with
    procs := Function.update s.procs process record
    contexts := Function.update s.contexts record.context context }

def initialContext (function esp cr0 cr3 : ℕ) : CpuStatus :=
  { cr3, cr2 := 0, cr0, esp, edi := 0, esi := 0, edx := 0, ecx := 0, ebx := 0xbeef, eax := 0, ebp := 0,
    isrNo := 0, isrErr := 0, eip := function, cs := 0x08, eflags := 0x200202 }

/-- `create_process` once `kalloc` gave `process` and `context`, `create_new_pdptes` the
`vmm` and the stack top `esp`; `cr0` and `cr3` are the registers it reads. -/
def createProcess (fuel : ℕ) (s : Sched) (process context vmm : Ptr) (function esp cr0 cr3 privileged : ℕ) :
    Exec Sched := do
  let parentVmm := s.currentVmm
  let s : Sched :=
    { writeProcess s process ⟨s.nextFreePid, .ready, context, vmm, 0⟩ (initialContext function esp cr0 cr3) with
      nextFreePid := u32 (s.nextFreePid + 1)
      currentVmm := vmm }
  let s ← if privileged ≠ PRIV_NO_ADD then addProcess fuel s process else pure s
  if parentVmm ≠ 0 then setCurrentVmm s parentVmm else return s

def initScheduler (fuel : ℕ) (s : Sched) (process context vmm : Ptr) (runIdle esp cr0 cr3 : ℕ) : Exec Sched := do
  let s := { s with processListHead := 0, currentProcess := 0 }
  let s ← createProcess fuel s process context vmm runIdle esp cr0 cr3 PRIV_NO_ADD
  return { s with idleProcess := process, initialized := true }

/-- `memcpy(current_process->context, context, sizeof(cpu_status_t))` -/
def saveContext (s : Sched) (context : CpuStatus) : Exec Sched := do
  let p ← s.load s.currentProcess
  if p.context = 0 then throw .fault
  return { s with contexts := Function.update s.contexts p.context context }

/-- The loop of `schedule`. -/
def skipProcesses : ℕ → Sched → Exec Sched
  | 0, _ => .error .fuel
  | fuel + 1, s =>
    if s.currentProcess = 0 then .ok s
    else do
      let p ← s.load s.currentProcess
      if p.status = .ready then return s
      let s ←
        if p.status = .dead then deleteProcess fuel s s.currentProcess
        else s.modify s.currentProcess (·.setStatus .ready)
      let p ← s.load s.currentProcess
      skipProcesses fuel { s with currentProcess := p.next }

def switchProcess (s : Sched) : Exec (Ptr × Sched) := do
  let s :=
    if s.currentProcess = 0 then
      if s.processListHead ≠ 0 then { s with currentProcess := s.processListHead }
      else { s with currentProcess := s.idleProcess }
    else s
  let s ← s.modify s.currentProcess (·.setStatus .running)
  let p ← s.load s.currentProcess
  let s ← setCurrentVmm s p.vmmObj
  return (p.context, s)

/-- The saved context the interrupt is to return to. -/
def schedule (fuel : ℕ) (s : Sched) (context : CpuStatus) : Exec (Ptr × Sched) := do
  let s ← if s.currentProcess ≠ 0 then saveContext s context else pure s
  let s ← skipProcesses fuel s
  switchProcess s

/-- The context execution goes on with after a timer interrupt. -/
def handleSchedule (fuel : ℕ) (s : Sched) (context : CpuStatus) : Exec (CpuStatus × Sched) := do
  if !s.initialized then return (context, s)
  let (toRet, s) ← schedule fuel s context
  return (s.contexts toRet, s)

end WordOS.Kernel
