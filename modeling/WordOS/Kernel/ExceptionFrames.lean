import WordOS.Kernel.DescriptorTables
import WordOS.Kernel.InterruptReturn

/-! Exceptions: from the gates of `init_idt` through the stubs of `idtStub.s` to `isr_handler`, and back. -/

namespace WordOS.Kernel

open Lib.Words

/-- The vectors of `isr_err_stub`; those of `isr_no_err_stub` push an error code of their own. -/
def isrErrStubs : List ℕ := [8, 10, 11, 12, 13, 14, 17, 30]

def isrStub (num : ℕ) : List Instr :=
  [.cli] ++ (if num ∈ isrErrStubs then [] else [.pushImm 0]) ++ [.pushImm (BitVec.ofNat 32 num)]

/-- `isr_frame_as` up to its call of `isr_handler`. -/
def isrFrameAs : List Instr :=
  [.push .ebp, .push .eax, .push .ebx, .push .ecx, .push .edx, .push .esi, .push .edi, .push .ebp,
    .mov .cr0 .eax, .push .eax, .mov .cr2 .eax, .push .eax, .mov .cr3 .eax, .push .eax]

/-- `isr_frame_as` after the call, up to `sti`. -/
def isrPops : List Instr :=
  [.pop .eax, .mov .eax .cr3, .pop .eax, .mov .eax .cr2, .pop .eax, .mov .eax .cr0,
    .pop .ebp, .pop .edi, .pop .esi, .pop .edx, .pop .ecx, .pop .ebx, .pop .eax, .pop .ebp, .addImm 8 .esp]

def sti (c : Cpu) : Cpu := c.set .eflags (c.regs .eflags ||| ifFlag)

def isrResume (c : Cpu) : Cpu := exec (sti (run isrPops c)) .iret

/-- What the processor does on an exception in ring 0, with an error code or without one. -/
def deliverException (gate : GateType) (entry : Word) (err : Option Word) (c : Cpu) : Cpu :=
  match err with
  | none => deliver gate entry c
  | some e => (deliver gate entry c).push e

/-- An exception up to the first instruction of `isr_handler`, which is to return to `ret`. -/
def isrEntry (gate : GateType) (num : ℕ) (entry : Word) (err : Option Word) (ret : Word) (c : Cpu) : Cpu :=
  run (isrStub num ++ isrFrameAs ++ [.pushImm ret]) (deliverException gate entry err c)

variable {c u : Cpu} {num : ℕ} {gate : GateType} {entry ret : Word} {err : Option Word}

/-- The stub pushes what the processor has not pushed. -/
lemma isrStub_framed (herr : err.isSome ↔ num ∈ isrErrStubs) :
    Framed c c.mem (c.regs .esp) [c.regs .eflags, c.regs .cs, c.regs .eip, err.getD 0, BitVec.ofNat 32 num] [.eip, .cs, .eflags, .esp]
      (run (isrStub num) (deliverException gate entry err c)) := by
  have hframe := deliver_framed gate entry c
  cases err with
  | none =>
    have hnum : num ∉ isrErrStubs := fun h => by simpa using herr.mpr h
    rw [isrStub, if_neg hnum]
    exact ((hframe.clobber (r := .eflags) (by decide) (by decide) _).pushed (by decide) 0).pushed (by decide) _
  | some e =>
    have hnum : num ∈ isrErrStubs := herr.mp rfl
    rw [isrStub, if_pos hnum]
    have herr := hframe.pushed (by decide) e
    exact (herr.clobber (r := .eflags) (by decide) (by decide) _).pushed (by decide) _

/-- The field for ESP gets EBP. -/
lemma isrEntry_framed (herr : err.isSome ↔ num ∈ isrErrStubs) :
    Framed c c.mem (c.regs .esp) (frameOf (c.set .esp (c.regs .ebp)) (BitVec.ofNat 32 num) (err.getD 0) ++ [ret])
      [.eax, .eip, .cs, .eflags, .esp] (isrEntry gate num entry err ret c) := by
  have hparts : isrFrameAs = ([.ebp, .eax, .ebx, .ecx, .edx, .esi, .edi, .ebp] : List Reg).map .push ++
      ([.cr0, .cr2, .cr3] : List Reg).flatMap fun r => [.mov r .eax, .push .eax] := rfl
  have hwords : frameOf (c.set .esp (c.regs .ebp)) (BitVec.ofNat 32 num) (err.getD 0) ++ [ret] =
      [c.regs .eflags, c.regs .cs, c.regs .eip, err.getD 0, BitVec.ofNat 32 num] ++
        ([.ebp, .eax, .ebx, .ecx, .edx, .esi, .edi, .ebp] : List Reg).map c.regs ++ ([.cr0, .cr2, .cr3] : List Reg).map c.regs ++
        [ret] := by
    simp [frameOf, Cpu.set_of_ne]
  have hstub : Framed c _ _ _ _ (run (isrStub num) (deliverException gate entry err c)) := isrStub_framed herr
  have hregs := (hstub.pushAll (by decide) [.ebp, .eax, .ebx, .ecx, .edx, .esi, .edi, .ebp] (by decide)).forget .eax
  have hctl := hregs.pushControls (by decide) (by decide) [.cr0, .cr2, .cr3] (by decide)
  rw [isrEntry, run_append, run_append, hparts, run_append, hwords]
  exact hctl.pushed (by decide) ret

/-- The pops take each register from its field, EBP from the last of its two. -/
lemma isrResume_regs (u : Cpu) : (∀ r, r ≠ .esp → (isrResume u).regs r = read32 u.mem (u.regs .esp + fieldOffset r)) ∧
    (isrResume u).regs .esp = u.regs .esp + 64 := by
  have hpop : ∀ k : ℕ, k < 16 → ∀ a : Word, a = u.regs .esp + BitVec.ofNat 32 (4 * k) →
      read32 u.mem a = read32 u.mem (u.regs .esp + BitVec.ofNat 32 (4 * k)) := fun _ _ _ h => congrArg _ h
  have hesp : (isrResume u).regs .esp = u.regs .esp + 4 + 4 + 4 + 4 + 4 + 4 + 4 + 4 + 4 + 4 + 4 + 8 + 4 + 4 + 4 := rfl
  refine ⟨fun r hr => ?_, hesp.trans (by bv_omega)⟩
  cases r with
  | esp => exact absurd rfl hr
  | cr3 => exact hpop 0 (by decide) (u.regs .esp) (by bv_omega)
  | cr2 => exact hpop 1 (by decide) (u.regs .esp + 4) (by bv_omega)
  | cr0 => exact hpop 2 (by decide) (u.regs .esp + 4 + 4) (by bv_omega)
  | edi => exact hpop 4 (by decide) (u.regs .esp + 4 + 4 + 4 + 4) (by bv_omega)
  | esi => exact hpop 5 (by decide) (u.regs .esp + 4 + 4 + 4 + 4 + 4) (by bv_omega)
  | edx => exact hpop 6 (by decide) (u.regs .esp + 4 + 4 + 4 + 4 + 4 + 4) (by bv_omega)
  | ecx => exact hpop 7 (by decide) (u.regs .esp + 4 + 4 + 4 + 4 + 4 + 4 + 4) (by bv_omega)
  | ebx => exact hpop 8 (by decide) (u.regs .esp + 4 + 4 + 4 + 4 + 4 + 4 + 4 + 4) (by bv_omega)
  | eax => exact hpop 9 (by decide) (u.regs .esp + 4 + 4 + 4 + 4 + 4 + 4 + 4 + 4 + 4) (by bv_omega)
  | ebp => exact hpop 10 (by decide) (u.regs .esp + 4 + 4 + 4 + 4 + 4 + 4 + 4 + 4 + 4 + 4) (by bv_omega)
  | eip => exact hpop 13 (by decide) (u.regs .esp + 4 + 4 + 4 + 4 + 4 + 4 + 4 + 4 + 4 + 4 + 4 + 8) (by bv_omega)
  | cs => exact hpop 14 (by decide) (u.regs .esp + 4 + 4 + 4 + 4 + 4 + 4 + 4 + 4 + 4 + 4 + 4 + 8 + 4) (by bv_omega)
  | eflags => exact hpop 15 (by decide) (u.regs .esp + 4 + 4 + 4 + 4 + 4 + 4 + 4 + 4 + 4 + 4 + 4 + 8 + 4 + 4) (by bv_omega)

lemma isrEntry_status (herr : err.isSome ↔ num ∈ isrErrStubs) :
    (isrEntry gate num entry err ret c).regs .esp + 4 = c.regs .esp - 64 ∧
    readStatus (isrEntry gate num entry err ret c).mem (c.regs .esp - 64) =
      { statusOf c (BitVec.ofNat 32 num) (err.getD 0) with esp := (c.regs .ebp).toNat } := by
  have hframe : Framed c _ _ _ _ (isrEntry gate num entry err ret c) := isrEntry_framed herr
  refine ⟨?_, hframe.argument.2.trans ?_⟩
  · rw [hframe.esp]
    simp only [frameOf, List.length_append, List.length_cons, List.length_nil]
    bv_omega
  · simp [statusOf, Cpu.set_of_ne]

lemma isrResume_restores {a : Word} (hesp : u.regs .esp = a - 64) (ha : a = c.regs .esp)
    (hstatus : readStatus u.mem (a - 64) = { statusOf c (BitVec.ofNat 32 num) (err.getD 0) with esp := (c.regs .ebp).toNat }) :
    ∀ r, (isrResume u).regs r = c.regs r := by
  obtain ⟨hregs, htop⟩ := isrResume_regs u
  have hset : readStatus u.mem (a - 64) = statusOf (c.set .esp (c.regs .ebp)) (BitVec.ofNat 32 num) (err.getD 0) := by
    rw [hstatus]
    simp [statusOf, Cpu.set_of_ne]
  intro r
  by_cases hr : r = .esp
  · rw [hr, htop, hesp, ha]
    bv_omega
  · rw [hregs r hr, hesp, read_of_status hset r, Cpu.set_of_ne hr]

/-- Each exception goes through the table to its stub, with interrupts off. Its handler finds the registers in the fields of
their names, but for ESP, and if it leaves them there all of them come back. -/
theorem exception_restores {idt : ℕ} {stub : ℕ → Word} {m : Lib.Bytes.Mem} (c : Cpu) {num : ℕ} {err : Option Word} (ret : Word)
    (hnum : num < 32) (herr : err.isSome ↔ num ∈ isrErrStubs)
    (hidt : ∀ i < 2048, c.mem (BitVec.ofNat 32 (idt + i)) = initIdt idt stub m (idt + i)) :
    ∃ gate, gateOf (fun a => c.mem (BitVec.ofNat 32 a)) idt num = some gate ∧
      let d := deliverException gate.type (BitVec.ofNat 32 gate.offset) err c
      let f := isrEntry gate.type num (BitVec.ofNat 32 gate.offset) err ret c
      d.regs .eip = stub num ∧ d.regs .cs = 0x08 ∧ d.regs .eflags &&& ifFlag = 0 ∧
      readStatus f.mem (f.regs .esp + 4) =
        { statusOf c (BitVec.ofNat 32 num) (err.getD 0) with esp := (c.regs .ebp).toNat } ∧
      ∀ u, u.regs .esp = f.regs .esp + 4 → readStatus u.mem (u.regs .esp) = readStatus f.mem (u.regs .esp) →
        ∀ r, (isrResume u).regs r = c.regs r := by
  have hgate : gateOf (fun a => c.mem (BitVec.ofNat 32 a)) idt num = some ⟨.interrupt, 0, 0x08, (stub num).toNat⟩ := by
    have hsame : gateOf (fun a => c.mem (BitVec.ofNat 32 a)) idt num = gateOf (initIdt idt stub m) idt num :=
      gateOf_congr fun i hi => by
        rw [Nat.add_assoc]
        exact hidt _ (by omega)
    rw [hsame, initIdt_gate (by omega), if_pos (.inl hnum)]
  refine ⟨_, hgate, ?_⟩
  obtain ⟨htop, hstatus⟩ : (isrEntry .interrupt num (BitVec.ofNat 32 (stub num).toNat) err ret c).regs .esp + 4 = _ ∧ _ :=
    isrEntry_status herr
  dsimp only
  rw [htop]
  refine ⟨?_, ?_, ?_, hstatus, fun u hesp hsame => ?_⟩
  · rw [BitVec.ofNat_toNat, BitVec.setWidth_eq]
    cases err <;> rfl
  · cases err <;> rfl
  · have hflags : (deliverException .interrupt (BitVec.ofNat 32 (stub num).toNat) err c).regs .eflags =
        gateFlags .interrupt (c.regs .eflags) := by cases err <;> rfl
    rw [hflags, gateFlags, if_pos rfl, BitVec.and_assoc, BitVec.not_and_self]
    exact BitVec.and_zero
  · rw [hesp] at hsame
    exact isrResume_restores hesp rfl (hsame.trans hstatus)

/-- A page fault with a table at 0x2000, on a stack elsewhere. -/
theorem exception_restores_page_fault :
    let stub : ℕ → Word := fun v => BitVec.ofNat 32 (0xC0100000 + v)
    let c : Cpu := { sampleCpu 0x9000 with mem := fun a => initIdt 0x2000 stub (fun _ => 7) a.toNat }
    ∃ gate, gateOf (fun a => c.mem (BitVec.ofNat 32 a)) 0x2000 14 = some gate ∧
      let d := deliverException gate.type (BitVec.ofNat 32 gate.offset) (some 2) c
      let f := isrEntry gate.type 14 (BitVec.ofNat 32 gate.offset) (some 2) 0xC0200000 c
      d.regs .eip = stub 14 ∧ d.regs .cs = 0x08 ∧ d.regs .eflags &&& ifFlag = 0 ∧
      readStatus f.mem (f.regs .esp + 4) = { statusOf c 14#32 2 with esp := (c.regs .ebp).toNat } ∧
      ∀ u, u.regs .esp = f.regs .esp + 4 → readStatus u.mem (u.regs .esp) = readStatus f.mem (u.regs .esp) →
        ∀ r, (isrResume u).regs r = c.regs r := by
  intro stub c
  have herr : (some 2 : Option Word).isSome ↔ 14 ∈ isrErrStubs := by decide
  have hidt : ∀ i < 2048, c.mem (BitVec.ofNat 32 (0x2000 + i)) = initIdt 0x2000 stub (fun _ => 7) (0x2000 + i) := by
    intro i hi
    show initIdt _ _ _ (BitVec.ofNat 32 (0x2000 + i)).toNat = _
    rw [BitVec.toNat_ofNat, Nat.mod_eq_of_lt (by omega)]
  exact exception_restores c 0xC0200000 (show 14 < 32 by decide) herr hidt

end WordOS.Kernel
