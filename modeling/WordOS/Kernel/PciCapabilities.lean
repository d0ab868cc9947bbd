import WordOS.Lib.Chains
import WordOS.Memory.Reads

/-! `ahci_action` of `pci.c`: the walk along the capabilities, to the one for message signaled interrupts. -/

namespace WordOS.Kernel.Pci

open Machine Memory Lib.Bytes Lib.Chains

/-- The memory, with the configuration space of the AHCI controller in the page at `AHCIAddr`. -/
structure AhciSpace where
  mem : Mem
  addr : ℕ
  aligned : addr % 4096 = 0
  lt : addr < 2 ^ 32
  ne : addr ≠ 0

/-- The memory, and how often a field was accessed through `msi_pointer`. -/
structure MsiAccess where
  mem : Mem
  count : ℕ

namespace AhciSpace

variable (d : AhciSpace)

def Inside (x : ℕ) : Prop := d.addr ≤ x ∧ x < d.addr + 4096

instance : DecidablePred d.Inside := fun x => inferInstanceAs (Decidable (d.addr ≤ x ∧ x < d.addr + 4096))

def load8 (p : ℕ) : Exec ℕ := loadByte d.Inside d.mem p

/-- Bit 4 of `Status`. -/
def hasCapabilities : Exec Bool := do
  return (← d.load8 (d.addr + 0x06)) &&& 2 ^ 4 ≠ 0

/-- The loop of `ahci_action`: `cap_pointer` and `msi_pointer` behind it. -/
def walk (base : ℕ) : (n : ℕ) → (cap : ℕ) → Exec (ℕ × ℕ)
  | 0, _ => .error .fuel
  | n + 1, cap => do
    let next ← d.load8 (cap + 1)
    if next = 0 then return (cap, 0)
    let capID ← d.load8 cap
    if capID = 0x5 then return (cap, cap)
    walk base n (u32 (base + next))

/-! Accesses through `msi_pointer`. -/

def loadMsi16 (s : MsiAccess) (p : ℕ) : Exec (ℕ × MsiAccess) :=
  if Within d.Inside p 2 then .ok (read16 s.mem p, { s with count := s.count + 1 }) else .error .fault

def storeMsi16 (s : MsiAccess) (p v : ℕ) : Exec MsiAccess :=
  if Within d.Inside p 2 then .ok ⟨write16 s.mem p v, s.count + 1⟩ else .error .fault

def storeMsi32 (s : MsiAccess) (p v : ℕ) : Exec MsiAccess :=
  if Within d.Inside p 4 then .ok ⟨write32 s.mem p v, s.count + 1⟩ else .error .fault

/-- The rest of `ahci_action`, behind the loop. -/
def enableMsi (msi : ℕ) (s : MsiAccess) : Exec MsiAccess := do
  let (control, s) ← d.loadMsi16 s (msi + 2)
  let s ← d.storeMsi16 s (msi + 2) (control ||| 0x1)
  let (control, s) ← d.loadMsi16 s (msi + 2)
  if control &&& 2 ^ 7 ≠ 0 then
    let s ← d.storeMsi32 s (msi + 8) 0
    let s ← d.storeMsi16 s (msi + 14) 0
    let s ← d.storeMsi16 s (msi + 12) 0x33
    d.storeMsi32 s (msi + 4) 0xFEE00300
  else return s

/-- `cap_pointer` and `msi_pointer` behind the loop. -/
def findMsi (n : ℕ) : Exec (ℕ × ℕ) := do
  let capOffset := (← d.load8 (d.addr + 0x34)) &&& 0xfc
  d.walk (u32 (d.addr + capOffset)) n (u32 (d.addr + capOffset))

def ahciAction (n : ℕ) : Exec MsiAccess := do
  if ← d.hasCapabilities then
    let (cap, msi) ← d.findMsi n
    if cap = 0 then throw (.panic "NO MSI! INT instr not implemented!\n")
    d.enableMsi msi ⟨d.mem, 0⟩
  else return ⟨d.mem, 0⟩

/-! The capabilities by the specification of PCI: each has its id and the offset of the next one. -/

def config (offset : ℕ) : ℕ := (d.mem (d.addr + offset)).toNat

def capNext (o : ℕ) : Option ℕ := if d.config (o + 1) = 0 then none else some (d.config (o + 1))

/-- The first capability; there is none without bit 4 of `Status`. -/
def capFirst : Option ℕ :=
  if d.config 0x06 &&& 2 ^ 4 = 0 ∨ d.config 0x34 &&& 0xfc = 0 then none else some (d.config 0x34 &&& 0xfc)

def IsMsi (o : ℕ) : Prop := d.config o = 5

instance : DecidablePred d.IsMsi := fun o => inferInstanceAs (Decidable (d.config o = 5))

def Acyclic : Prop := ∀ first, d.capFirst = some first → ∃ k last, EndsAt d.capNext k first last

/-- `o` is the first capability for message signaled interrupts. -/
def Msi (o : ℕ) : Prop := ∃ first, d.capFirst = some first ∧ FirstWith d.capNext d.IsMsi first o

/-- `msi_pointer` is set to the capability, and without one it is not used. -/
structure SetsMsi : Prop where
  found : ∀ o, d.Msi o → ∃ n cap, d.findMsi n = .ok (cap, d.addr + o)
  absent : (∀ o, ¬ d.Msi o) → ∃ n s, d.ahciAction n = .ok s ∧ s.count = 0

/-- The chain as the loop follows it, with the offsets counted from the first capability. -/
def readNext (o : ℕ) : Option ℕ :=
  if d.config (o + 1) = 0 then none else some ((d.config 0x34 &&& 0xfc) + d.config (o + 1))

variable {d : AhciSpace} {s t : MsiAccess} {o first cap msi p v n : ℕ}

lemma config_lt (o : ℕ) : d.config o < 256 := BitVec.isLt _

lemma load8_config (ho : o < 4096) : d.load8 (d.addr + o) = .ok (d.config o) := by
  have haligned := d.aligned
  have hlt := d.lt
  have haddr : u32 (d.addr + o) = d.addr + o := u32_eq (by omega)
  have hin : d.Inside (u32 (d.addr + o)) := by
    rw [haddr]
    exact ⟨Nat.le_add_right _ _, by omega⟩
  refine (loadByte_ok hin).trans ?_
  rw [byteAt, haddr, config]

lemma capOffset_le : d.config 0x34 &&& 0xfc ≤ 0xfc := Nat.and_le_right

lemma u32_capability (ho : o < 512) : u32 (d.addr + (d.config 0x34 &&& 0xfc) + o) = d.addr + ((d.config 0x34 &&& 0xfc) + o) := by
  have haligned := d.aligned
  have hlt := d.lt
  have hle := d.capOffset_le
  rw [Nat.add_assoc]
  exact u32_eq (by omega)

lemma u32_first : u32 (d.addr + (d.config 0x34 &&& 0xfc)) = d.addr + (d.config 0x34 &&& 0xfc) :=
  u32_capability (o := 0) (by norm_num)

lemma walk_succ (ho : o < 512) : d.walk (d.addr + (d.config 0x34 &&& 0xfc)) (n + 1) (d.addr + o) =
    (d.readNext o).elim (.ok (d.addr + o, 0)) fun next =>
      if d.IsMsi o then .ok (d.addr + o, d.addr + o) else d.walk (d.addr + (d.config 0x34 &&& 0xfc)) n (d.addr + next) := by
  have hnext := d.config_lt (o + 1)
  rw [walk, Nat.add_assoc, load8_config (by omega), ok_bind, load8_config (by omega), ok_bind, readNext]
  by_cases hzero : d.config (o + 1) = 0
  · rw [if_pos hzero, if_pos hzero]
    rfl
  · rw [if_neg hzero, if_neg hzero, Option.elim_some, u32_capability (by omega)]
    rfl

lemma readNext_lt (h : d.readNext o = some p) : p < 512 := by
  have hnext := d.config_lt (o + 1)
  have hle := d.capOffset_le
  rw [readNext] at h
  split_ifs at h
  have heq := Option.some.inj h
  omega

lemma walk_finds (h : FirstWith d.readNext d.IsMsi first o) (hlast : d.config (o + 1) ≠ 0) (hfirst : first < 512) :
    ∃ n cap, d.walk (d.addr + (d.config 0x34 &&& 0xfc)) n (d.addr + first) = .ok (cap, d.addr + o) := by
  have hmsi : d.IsMsi o := by
    obtain ⟨k, -, hmsi, -⟩ := h
    exact hmsi
  revert hfirst
  refine h.induct (Q := fun x => x < 512 → ∃ n cap, d.walk _ n (d.addr + x) = .ok (cap, d.addr + o)) ?_ ?_
  · intro ho
    refine ⟨1, d.addr + o, ?_⟩
    rw [walk_succ ho, readNext, if_neg hlast, Option.elim_some, if_pos hmsi]
  · intro c e hc he ih hlt
    obtain ⟨n, cap, hrun⟩ := ih (readNext_lt he)
    refine ⟨n + 1, cap, ?_⟩
    rw [walk_succ hlt, he, Option.elim_some, if_neg hc]
    exact hrun

lemma walk_msi (h : d.walk (d.addr + (d.config 0x34 &&& 0xfc)) n (d.addr + first) = .ok (cap, msi)) (hfirst : first < 512) :
    msi = 0 ∨ ∃ o, msi = d.addr + o ∧ FirstWith d.readNext d.IsMsi first o ∧ d.config (o + 1) ≠ 0 := by
  induction n generalizing first with
  | zero => cases h
  | succ n ih =>
    rw [walk_succ hfirst] at h
    cases hnext : d.readNext first with
    | none =>
      rw [hnext] at h
      exact Or.inl (Prod.mk.inj (Except.ok.inj h)).2.symm
    | some next =>
      rw [hnext, Option.elim_some] at h
      by_cases hmsi : d.IsMsi first
      · rw [if_pos hmsi] at h
        have hlast : d.config (first + 1) ≠ 0 := by
          intro hzero
          rw [readNext, if_pos hzero] at hnext
          cases hnext
        exact Or.inr ⟨first, (Prod.mk.inj (Except.ok.inj h)).2.symm, (FirstWith.iff_of_pos hmsi).mpr rfl, hlast⟩
      · rw [if_neg hmsi] at h
        refine (ih h (readNext_lt hnext)).imp_right ?_
        rintro ⟨o, hp, hfind, hlast⟩
        exact ⟨o, hp, (FirstWith.iff_of_neg hmsi).mpr ⟨next, hnext, hfind⟩, hlast⟩

lemma findMsi_eq : d.findMsi n = d.walk (d.addr + (d.config 0x34 &&& 0xfc)) n (d.addr + (d.config 0x34 &&& 0xfc)) := by
  rw [findMsi, load8_config (by norm_num), ok_bind]
  simp only [u32_first]

lemma hasCapabilities_eq : d.hasCapabilities = .ok (decide (d.config 0x06 &&& 2 ^ 4 ≠ 0)) := by
  rw [hasCapabilities, load8_config (by norm_num)]
  rfl

/-! An access through `msi_pointer` counts. -/

lemma loadMsi16_count {r : ℕ × MsiAccess} (h : d.loadMsi16 s p = .ok r) : r.2.count = s.count + 1 := by
  rw [loadMsi16] at h
  split_ifs at h
  rw [← Except.ok.inj h]

lemma storeMsi16_count (h : d.storeMsi16 s p v = .ok t) : t.count = s.count + 1 := by
  rw [storeMsi16] at h
  split_ifs at h
  rw [← Except.ok.inj h]

lemma storeMsi32_count (h : d.storeMsi32 s p v = .ok t) : t.count = s.count + 1 := by
  rw [storeMsi32] at h
  split_ifs at h
  rw [← Except.ok.inj h]

lemma enableMsi_count (h : d.enableMsi msi s = .ok t) : s.count < t.count := by
  obtain ⟨⟨control, s1⟩, h1, h⟩ := bind_eq_ok.mp h
  obtain ⟨s2, h2, h⟩ := bind_eq_ok.mp h
  obtain ⟨⟨control', s3⟩, h3, h⟩ := bind_eq_ok.mp h
  have hc1 : s1.count = s.count + 1 := loadMsi16_count h1
  have hc2 := storeMsi16_count h2
  have hc3 : s3.count = s2.count + 1 := loadMsi16_count h3
  dsimp only at h
  split_ifs at h
  · obtain ⟨s4, h4, h⟩ := bind_eq_ok.mp h
    obtain ⟨s5, h5, h⟩ := bind_eq_ok.mp h
    obtain ⟨s6, h6, h⟩ := bind_eq_ok.mp h
    have hc4 := storeMsi32_count h4
    have hc5 := storeMsi16_count h5
    have hc6 := storeMsi16_count h6
    have hc7 := storeMsi32_count h
    omega
  · obtain rfl := Except.ok.inj h
    omega

/-- With a list of capabilities `msi_pointer` is used on every way to the end. -/
lemma ahciAction_count (hbit : d.config 0x06 &&& 2 ^ 4 ≠ 0) (h : d.ahciAction n = .ok s) : 0 < s.count := by
  rw [ahciAction, hasCapabilities_eq, ok_bind, if_pos (decide_eq_true hbit)] at h
  obtain ⟨⟨cap, msi⟩, -, h⟩ := bind_eq_ok.mp h
  dsimp only at h
  split_ifs at h
  · cases h
  · exact enableMsi_count h

lemma SetsMsi.reads (h : d.SetsMsi) (hbit : d.config 0x06 &&& 2 ^ 4 ≠ 0) :
    ∃ o, d.Msi o ∧ FirstWith d.readNext d.IsMsi (d.config 0x34 &&& 0xfc) o ∧ d.config (o + 1) ≠ 0 := by
  by_cases hmsi : ∃ o, d.Msi o
  · obtain ⟨o, ho⟩ := hmsi
    obtain ⟨n, cap, hrun⟩ := h.found o ho
    rw [findMsi_eq] at hrun
    have hle := d.capOffset_le
    rcases walk_msi hrun (by omega) with hzero | ⟨o', heq, hfind, hlast⟩
    · have hne := d.ne
      omega
    · obtain rfl := Nat.add_left_cancel heq
      exact ⟨o, ho, hfind, hlast⟩
  · obtain ⟨n, s, hrun, hzero⟩ := h.absent fun o ho => hmsi ⟨o, ho⟩
    have hpos := ahciAction_count hbit hrun
    omega

/-- The loop counts the offsets from the first capability, and does not look at the last one on its chain. -/
theorem setsMsi_iff (d : AhciSpace) : d.SetsMsi ↔ d.config 0x06 &&& 2 ^ 4 = 0 ∨
    ∃ o, d.Msi o ∧ FirstWith d.readNext d.IsMsi (d.config 0x34 &&& 0xfc) o ∧ d.config (o + 1) ≠ 0 := by
  by_cases hbit : d.config 0x06 &&& 2 ^ 4 = 0
  · refine iff_of_true ⟨?_, fun _ => ⟨0, ⟨d.mem, 0⟩, ?_, rfl⟩⟩ (Or.inl hbit)
    · rintro o ⟨first, hfirst, -⟩
      rw [capFirst, if_pos (Or.inl hbit)] at hfirst
      cases hfirst
    · have hclear : ¬ decide (d.config 0x06 &&& 2 ^ 4 ≠ 0) = true := fun h => of_decide_eq_true h hbit
      rw [ahciAction, hasCapabilities_eq, ok_bind, if_neg hclear]
      rfl
  · constructor
    · intro h
      exact Or.inr (h.reads hbit)
    · rintro (hzero | ⟨o, hmsi, hfind, hlast⟩)
      · exact absurd hzero hbit
      · refine ⟨?_, fun hnone => absurd hmsi (hnone o)⟩
        rintro o' ⟨first, hfirst, ho'⟩
        obtain ⟨first', hfirst', ho⟩ := hmsi
        obtain rfl := Option.some.inj (hfirst.symm.trans hfirst')
        obtain rfl := ho.unique ho'
        have hle := d.capOffset_le
        obtain ⟨n, cap, hrun⟩ := walk_finds hfind hlast (by omega)
        exact ⟨n, cap, findMsi_eq.trans hrun⟩

/-- A controller with one capability, at 0x40. -/
def lastMsi : AhciSpace where
  mem a := if a = 0xD0000006 then 0x10 else if a = 0xD0000034 then 0x40 else if a = 0xD0000040 then 5 else 0
  addr := 0xD0000000
  aligned := by norm_num
  lt := by norm_num
  ne := by norm_num

theorem not_setsMsi : ∃ d : AhciSpace, d.Acyclic ∧ ¬ d.SetsMsi := by
  refine ⟨lastMsi, ?_, fun h => ?_⟩
  · intro first hfirst
    obtain rfl : 0x40 = first := Option.some.inj hfirst
    exact ⟨0, 0x40, rfl, rfl⟩
  · obtain ⟨o, -, hfind, hlast⟩ := h.reads (by decide)
    have hfirst : lastMsi.IsMsi (lastMsi.config 0x34 &&& 0xfc) := by decide
    obtain rfl := (FirstWith.iff_of_pos hfirst).mp hfind
    exact absurd hlast (by decide)

end AhciSpace

end WordOS.Kernel.Pci
