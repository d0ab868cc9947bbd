import WordOS.Ahci.CommandFis
import WordOS.Lib.Runs
import WordOS.Memory.FrameOrder

/-! `init_ahci_cmd_port`: the pages of a port, and the addresses of the command tables in its headers. -/

namespace WordOS.Ahci

open Machine Memory Memory.Paging Lib.Bytes Lib.Runs

/-- The address spaces, and the memory that the driver writes through its pages. -/
structure AhciState where
  spaces : Spaces
  mem : Mem

def AhciState.paging (s : AhciState) : Paging := s.spaces.vmm.paging

/-- What the registers of the port are set to. -/
structure PortBases where
  pxclb : ℕ
  pxfb : ℕ

def PG_PRES : ℕ := 1
def PG_RW : ℕ := 2

def initHeader (m : Mem) (baseAddr cmdListPage cmdListPhys j : ℕ) : Mem :=
  let header := baseAddr + j * SIZEOF_CMD_HEADER
  let m := write16 m (header + 2) 8
  let m := write32 m (header + 8) (u32 (cmdListPhys + j * SIZEOF_CMD_TBL))
  let m := write32 m (header + 12) 0
  memset m (cmdListPage + j * SIZEOF_CMD_TBL) 0 256

/-- The first `n` passes of the loop over the slots. -/
def initHeaders (m : Mem) (baseAddr cmdListPage cmdListPhys : ℕ) : (n : ℕ) → Mem
  | 0 => m
  | j + 1 => initHeader (initHeaders m baseAddr cmdListPage cmdListPhys j) baseAddr cmdListPage cmdListPhys j

/-- The loop's body, between `stop_commands` and `start_commands`. -/
def initPort (fuel : ℕ) (s : AhciState) (current : RamPorts) : Exec (RamPorts × PortBases × AhciState) := do
  let (baseAddr, spaces) ← paeKalloc fuel s.spaces (4096 * 3) (PG_PRES ||| PG_RW) 0
  let cmdListPage := u32 (baseAddr + 4096)
  let cmdListPhys ← getPhysFromVirt spaces.vmm.paging cmdListPage
  let basePhys ← getPhysFromVirt spaces.vmm.paging baseAddr
  let fbAddr := u32 (baseAddr + 0x400)
  let m := memset s.mem baseAddr 0 1024
  let m := memset m fbAddr 0 256
  let m := initHeaders m baseAddr cmdListPage cmdListPhys 32
  return ({ current with clbAddr := baseAddr, ctlbAddr := cmdListPage, fbAddr := fbAddr },
    ⟨u32 basePhys, u32 (basePhys + 0x400)⟩, ⟨spaces, m⟩)

def initAhciCmdPort (fuel : ℕ) : AhciState → List RamPorts → Exec (List (RamPorts × PortBases) × AhciState)
  | s, [] => .ok ([], s)
  | s, current :: rest => do
    let (port, bases, s) ← initPort fuel s current
    let (ports, s) ← initAhciCmdPort fuel s rest
    return ((port, bases) :: ports, s)

variable {m : Mem} {baseAddr cmdListPage cmdListPhys n j x : ℕ}

lemma initHeader_of_outside (hh : x < baseAddr + 32 * j ∨ baseAddr + 32 * j + 32 ≤ x)
    (ht : x < cmdListPage + 256 * j ∨ cmdListPage + 256 * j + 256 ≤ x) :
    initHeader m baseAddr cmdListPage cmdListPhys j x = m x := by
  rw [initHeader, SIZEOF_CMD_HEADER, SIZEOF_CMD_TBL, memset_of_outside (by omega), write32_of_outside (by omega),
    write32_of_outside (by omega), write16_of_outside (by omega)]

lemma initHeader_ctba (hpage : baseAddr + 4096 ≤ cmdListPage) (hj : j < 32) :
    read32 (initHeader m baseAddr cmdListPage cmdListPhys j) (baseAddr + 32 * j + 8) = u32 (cmdListPhys + 256 * j) := by
  rw [initHeader, SIZEOF_CMD_HEADER, SIZEOF_CMD_TBL]
  rw [read32_congr fun i hi => memset_of_outside (by omega), read32_write32_of_disjoint (by omega),
    show baseAddr + 32 * j + 8 = baseAddr + j * 32 + 8 by omega, read32_write32_self, u32, u32, Nat.mod_mod, Nat.mul_comm j]

/-- Every slot done so far has its table's address in its header. -/
lemma initHeaders_ctba (hpage : baseAddr + 4096 ≤ cmdListPage) (hn : n ≤ 32) (hj : j < n) :
    read32 (initHeaders m baseAddr cmdListPage cmdListPhys n) (baseAddr + 32 * j + 8) = u32 (cmdListPhys + 256 * j) := by
  induction n with
  | zero => omega
  | succ n ih =>
    rw [initHeaders]
    rcases Nat.lt_or_eq_of_le (Nat.le_of_lt_succ hj) with hlt | rfl
    · rw [read32_congr fun i hi => initHeader_of_outside (by omega) (by omega)]
      exact ih (by omega) hlt
    · exact initHeader_ctba hpage (by omega)

/-- The range that the allocator of the kernel takes for a port's pages. -/
def Takes (fuel : ℕ) (s : AhciState) (base : ℕ) : Prop :=
  KernelRange base ∧ ∃ u, vmmTakeRange fuel s.spaces.vmm s.spaces.vmm.kernelVmm (4096 * 3) = .ok (some base, u)

variable {fuel base : ℕ} {s t : AhciState} {current port : RamPorts} {bases : PortBases}

/-- What a pass of the loop does to the page tables and the headers. -/
structure Initialised (s t : AhciState) (port : RamPorts) (base f₁ f₂ : ℕ) : Prop where
  clb : port.clbAddr = base
  ctlb : port.ctlbAddr = base + 4096
  fb : port.fbAddr = base + 0x400
  tables : Consecutive (s.paging.only 3) (t.paging.only 3) base f₁ f₂
  ctba : ∀ j < 32, read32 t.mem (base + 32 * j + 8) = u32 (4096 * (256 + f₁) + 256 * j)

lemma paeKalloc_three {spaces : Spaces} {r flags : ℕ} (ht : Takes fuel s base)
    (hk : paeKalloc fuel s.spaces (4096 * 3) flags 0 = .ok (r, spaces)) :
    r = base ∧ ∃ rootPd, mapPages rootPd base 0 flags true 3 0 s.paging = .ok spaces.vmm.paging := by
  obtain ⟨hb, u, htake⟩ := ht
  have hhigh := hb.high
  obtain ⟨⟨r', vmm⟩, halloc, hret⟩ := bind_eq_ok.mp hk
  obtain ⟨rfl, rfl⟩ := Prod.mk.inj (Except.ok.inj hret)
  rw [vmmPageAlloc, show bytePgroundup (u32 (4096 * 3)) = 4096 * 3 by decide, htake] at halloc
  simp only [ok_bind] at halloc
  obtain ⟨q, hmap, hret⟩ := bind_eq_ok.mp halloc
  obtain ⟨rfl, rfl⟩ := Prod.mk.inj (Except.ok.inj hret)
  obtain ⟨hpaging, -⟩ := vmmTakeRange_frame (w := 0) htake
  rw [hpaging] at hmap
  exact ⟨u32_eq (by omega), _, hmap⟩

lemma initPort_initialised (hr : (s.paging.only 3).PaeReady) (ht : Takes fuel s base)
    (hi : initPort fuel s current = .ok (port, bases, t)) : ∃ f₁ f₂, Initialised s t port base f₁ f₂ := by
  obtain ⟨⟨r, spaces⟩, hk, hi⟩ := bind_eq_ok.mp hi
  obtain ⟨cmdListPhys, hphys, hi⟩ := bind_eq_ok.mp hi
  obtain ⟨basePhys, -, hret⟩ := bind_eq_ok.mp hi
  obtain ⟨rfl, rootPd, hmap⟩ := paeKalloc_three ht hk
  have hb := ht.left
  have hhigh := hb.high
  have hpages : ∀ k < 3, pdpteOf (u32 (r + (0 + 4096 * k))) = 3 := by
    intro k hk
    rw [u32_eq (by omega)]
    exact hb.pdpteOf_eq (by omega) (by omega)
  have hmap3 : mapPages rootPd r 0 0x3 true 3 0 (s.paging.only 3) = .ok (spaces.vmm.paging.only 3) := by
    rw [mapPages_only hpages, show mapPages rootPd r 0 0x3 true 3 0 s.paging = _ from hmap]
    rfl
  obtain ⟨f₁, f₂, hc⟩ := hr.mapPages_three hb hmap3
  have hpage : u32 (r + 4096) = r + 4096 := u32_eq (by omega)
  have hbase := hb.page
  have hle := hc.le
  have htrans := hc.maps_second (r + 4096) (by omega) (by omega)
  have hphys' : cmdListPhys = 4096 * (256 + f₁) := by
    have hget := getPhysFromVirt_of_translation hc.ready.recursive (by omega : r + 4096 < 2 ^ 32) htrans
    rw [getPhysFromVirt_only (hb.pdpteOf_eq (by omega) (by omega)), ← hpage, hphys] at hget
    rw [Except.ok.inj hget]
    exact pageOf_or (by omega) (by norm_num)
  obtain ⟨hport, hrest⟩ := Prod.mk.inj (Except.ok.inj hret)
  obtain ⟨-, rfl⟩ := Prod.mk.inj hrest
  subst hport
  refine ⟨f₁, f₂, rfl, hpage, u32_eq (by omega), hc, fun j hj => ?_⟩
  dsimp only
  rw [← hphys', initHeaders_ctba hpage.ge (Nat.le_refl 32) hj]

/-- The controller finds the table of slot `j` where the processor writes it. -/
def TableAgrees (t : AhciState) (port : RamPorts) (j : ℕ) : Prop :=
  t.paging.byteAt true (port.ctlbAddr + 256 * j) = some (read32 t.mem (port.clbAddr + 32 * j + 8))

/-- The first free frame after the one that is left for the second page is the next one, and the
second page needs no new page table. Frames are taken in order: the first for the first page, and
then one for its page table if that is missing. -/
def NextFrameFree (s : Paging) (base : ℕ) : Prop :=
  ∃ f, s.pmm.FreeAt (s.newTables base + 1) f ∧ s.pmm.bit (f + 1) = false ∧
    (SameTable (base + 4096) base ∨ s.newTables (base + 4096) = 0)

lemma byteAt_of_translation {s : Paging} {w f : ℕ} (hw : w < 2 ^ 32) (hquarter : w / 2 ^ 30 = 3) (hf : f ≤ 0xF00)
    (h : (s.only 3).translation w = some (4096 * (256 + f) ||| 0x3)) : s.byteAt true w = some (4096 * (256 + f) + w % 4096) := by
  rw [Paging.byteAt, frameAt, if_pos rfl, ← walk64_only hquarter, walk64_eq hw, h, Option.map_some,
    frameOf_or (by omega) (by norm_num) (by omega), Option.map_some]
  congr 1
  omega

namespace Initialised

variable {f₁ f₂ : ℕ}

lemma byteAt_second (h : Initialised s t port base f₁ f₂) (hb : KernelRange base) (hj : j < 16) :
    t.paging.byteAt true (base + 4096 + 256 * j) = some (4096 * (256 + f₁) + 256 * j) := by
  have hpage := hb.page
  have hlow := hb.low
  have hhigh := hb.high
  have htrans := h.tables.maps_second (base + 4096 + 256 * j) (by omega) (by omega)
  rw [byteAt_of_translation (by omega) (by omega) h.tables.le.left htrans]
  congr 1
  omega

lemma byteAt_third (h : Initialised s t port base f₁ f₂) (hb : KernelRange base) (hj : 16 ≤ j) (hj' : j < 32) :
    t.paging.byteAt true (base + 4096 + 256 * j) = some (4096 * (256 + f₂) + 256 * (j - 16)) := by
  have hpage := hb.page
  have hlow := hb.low
  have hhigh := hb.high
  have htrans := h.tables.maps_third (base + 4096 + 256 * j) (by omega) (by omega)
  rw [byteAt_of_translation (by omega) (by omega) h.tables.le.right htrans]
  congr 1
  omega

/-- Slots 16 to 31 have their tables on the third page. -/
lemma agrees_iff (h : Initialised s t port base f₁ f₂) (hb : KernelRange base) :
    (∀ j < 32, TableAgrees t port j) ↔ f₂ = f₁ + 1 := by
  obtain ⟨hle₁, hle₂⟩ := h.tables.le
  have hctba : ∀ j < 32, read32 t.mem (port.clbAddr + 32 * j + 8) = 4096 * (256 + f₁) + 256 * j := by
    intro j hj
    rw [h.clb, h.ctba j hj, u32_eq (by omega)]
  constructor
  · intro hall
    have hh := hall 16 (by decide)
    rw [TableAgrees, h.ctlb, h.byteAt_third hb (by decide) (by decide), hctba 16 (by decide), Option.some.injEq] at hh
    omega
  · intro hnext j hj
    rw [TableAgrees, h.ctlb, hctba j hj]
    by_cases hlt : j < 16
    · exact h.byteAt_second hb hlt
    · rw [h.byteAt_third hb (by omega) hj, hnext]
      congr 1
      omega

lemma next_iff (h : Initialised s t port base f₁ f₂) (hb : KernelRange base) : f₂ = f₁ + 1 ↔ NextFrameFree s.paging base := by
  have hfirst := newTables_only (s := s.paging) (hb.pdpteOf_eq (le_refl base) (by omega))
  have hsecond := newTables_only (s := s.paging) (hb.pdpteOf_eq (by omega : base ≤ base + 4096) (by omega))
  have hrank := h.tables.second
  rw [h.tables.next_iff, hsecond]
  rw [hfirst] at hrank
  constructor
  · rintro ⟨hfree, htab⟩
    exact ⟨f₁, hrank, hfree, htab⟩
  · rintro ⟨f, hf, hfree, htab⟩
    obtain rfl := hf.unique hrank
    exact ⟨hfree, htab⟩

end Initialised

lemma agrees_iff_nextFrameFree (hr : (s.paging.only 3).PaeReady) (ht : Takes fuel s base)
    (hi : initPort fuel s current = .ok (port, bases, t)) : (∀ j < 32, TableAgrees t port j) ↔ NextFrameFree s.paging base := by
  obtain ⟨f₁, f₂, h⟩ := initPort_initialised hr ht hi
  exact (h.agrees_iff ht.left).trans (h.next_iff ht.left)

/-- Each pass takes its pages from the kernel's dynamic range. -/
def InRange (fuel : ℕ) : AhciState → List RamPorts → Prop
  | _, [] => True
  | s, current :: rest => (∃ base, Takes fuel s base) ∧
    ∀ port bases t, initPort fuel s current = .ok (port, bases, t) → InRange fuel t rest

lemma initAhciCmdPort_ready {before : List RamPorts} {ports : List (RamPorts × PortBases)} (hr : (s.paging.only 3).PaeReady)
    (hin : InRange fuel s before) (hrun : initAhciCmdPort fuel s before = .ok (ports, t)) : (t.paging.only 3).PaeReady := by
  induction before generalizing s ports with
  | nil =>
    obtain ⟨-, rfl⟩ := Prod.mk.inj (Except.ok.inj hrun)
    exact hr
  | cons current rest ih =>
    obtain ⟨⟨base, ht⟩, hrest⟩ := hin
    obtain ⟨⟨port, bases, u⟩, hi, hrun⟩ := bind_eq_ok.mp hrun
    obtain ⟨⟨ports', v⟩, hloop, hret⟩ := bind_eq_ok.mp hrun
    obtain ⟨-, rfl⟩ := Prod.mk.inj (Except.ok.inj hret)
    obtain ⟨f₁, f₂, h⟩ := initPort_initialised hr ht hi
    exact ih h.tables.ready (hrest port bases u hi) hloop

/-- For the pass of any port, after those of the ports before it. -/
theorem tables_agree_iff (fuel base : ℕ) (s₀ s t : AhciState) (before : List RamPorts) (ports : List (RamPorts × PortBases))
    (current port : RamPorts) (bases : PortBases) (hr : (s₀.paging.only 3).PaeReady) (hin : InRange fuel s₀ before)
    (hrun : initAhciCmdPort fuel s₀ before = .ok (ports, s)) (ht : Takes fuel s base)
    (hi : initPort fuel s current = .ok (port, bases, t)) :
    (∀ j < 32, TableAgrees t port j) ↔ NextFrameFree s.paging base :=
  agrees_iff_nextFrameFree (initAhciCmdPort_ready hr hin hrun) ht hi

/-- A kernel whose first 32 frames are taken as `taken` says, and all others free. -/
def takenKernel (taken : BitVec 32) : AhciState where
  spaces := ⟨onePdVmm.withPaging
    { Paging.withOld fun _ => 0 with pmm := ⟨fun i => if i = 0 then taken else 0, NUM_FRAMES⟩ }, 0x1000⟩
  mem := fun _ => 0

lemma takenKernel_ready (taken : BitVec 32) : ((takenKernel taken).paging.only 3).PaeReady := by
  have hroom : (⟨fun i => if i = 0 then taken else 0, NUM_FRAMES⟩ : Pmm).Headroom := by
    refine ⟨0xF01, by decide, by decide, ?_, show 4 * (0xF01 / 32) + 4 ≤ NUM_FRAMES by decide⟩
    simp [Pmm.bit]
  exact Paging.withOld_ready_of _ hroom

lemma takenKernel_takes (taken : BitVec 32) : Takes 4 (takenKernel taken) 0xCC000000 := by
  obtain ⟨⟨o, u⟩, h, ho⟩ := exists_of_toOption_map (x := vmmTakeRange 4 onePdVmm 0x1000 (4096 * 3)) (g := Prod.fst)
    (c := some 0xCC000000) (by decide)
  obtain rfl : o = some 0xCC000000 := ho
  exact ⟨⟨by decide, by decide, by decide⟩, _, vmmTakeRange_withPaging_ok h _⟩

lemma takenKernel_initPort (taken : BitVec 32)
    (h : (initPort 4 (takenKernel taken) firstPort.toRamPorts).toOption.map (fun _ => true) = some true) :
    ∃ r, initPort 4 (takenKernel taken) firstPort.toRamPorts = .ok r := by
  obtain ⟨r, hr, -⟩ := exists_of_toOption_map h
  exact ⟨r, hr⟩

theorem tables_agree_iff_empty : ∃ port bases t, initPort 4 (takenKernel 0) firstPort.toRamPorts = .ok (port, bases, t) ∧
    ((∀ j < 32, TableAgrees t port j) ↔ NextFrameFree (takenKernel 0).paging 0xCC000000) := by
  obtain ⟨⟨port, bases, t⟩, h⟩ := takenKernel_initPort 0 (by decide)
  exact ⟨port, bases, t, h, tables_agree_iff 4 0xCC000000 (takenKernel 0) (takenKernel 0) t [] [] firstPort.toRamPorts port
    bases (takenKernel_ready 0) trivial rfl (takenKernel_takes 0) h⟩

/-- With frame 2 taken the three pages get frames 0, 1 and 3. -/
theorem tables_agree_counterexample : ¬ ∀ (fuel base : ℕ) (s t : AhciState) (current port : RamPorts) (bases : PortBases),
    (s.paging.only 3).PaeReady → Takes fuel s base → initPort fuel s current = .ok (port, bases, t) →
      ∀ j < 32, TableAgrees t port j := by
  intro hclaim
  obtain ⟨⟨port, bases, t⟩, h⟩ := takenKernel_initPort 4 (by decide)
  have hready := takenKernel_ready 4
  have htakes := takenKernel_takes 4
  obtain ⟨f, hf, hfree, -⟩ := (agrees_iff_nextFrameFree hready htakes h).mp (hclaim 4 _ _ t _ port bases hready htakes h)
  have hnone : (takenKernel 4).paging.newTables 0xCC000000 = 0 := by
    have htab := Paging.withOld_table (fun _ => 0) (i := 3) (j := 96)
    rw [Paging.newTables, if_neg]
    exact fun h => Option.some_ne_none 2 (htab.symm.trans h)
  have hone : (takenKernel 4).paging.pmm.FreeAt 1 1 := ⟨by decide, by decide⟩
  rw [hnone] at hf
  obtain rfl := hf.unique hone
  exact absurd hfree (by decide)

end WordOS.Ahci
