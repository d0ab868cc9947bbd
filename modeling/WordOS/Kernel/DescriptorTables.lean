import WordOS.Lib.Bytes
import WordOS.Kernel.Interrupts

/-! The tables that `gdt_install` and `init_idt` write, and what the processor reads from them. -/

namespace WordOS.Kernel

open Lib.Bytes

def SIZEOF_GDT_ENTRY : ℕ := 8

def SIZEOF_IDT_ENTRY : ℕ := 8

/-- `desc` is the address of the table. -/
def gdtSetGate (desc : ℕ) (m : Mem) (num base limit access gran : ℕ) : Mem :=
  let entry := desc + num * SIZEOF_GDT_ENTRY
  let m := write16 m (entry + 2) (base % 2 ^ 16)
  let m := Function.update m (entry + 4) (BitVec.ofNat 8 (base / 2 ^ 16))
  let m := Function.update m (entry + 7) (BitVec.ofNat 8 (base / 2 ^ 24))
  let m := write16 m entry (limit % 2 ^ 16)
  let m := Function.update m (entry + 6) (BitVec.ofNat 8 (limit / 2 ^ 16) &&& 0x0F)
  let m := Function.update m (entry + 6) (m (entry + 6) ||| (BitVec.ofNat 8 gran &&& 0xF0))
  Function.update m (entry + 5) (BitVec.ofNat 8 access)

def gdtInstall (desc : ℕ) (m : Mem) : Mem :=
  let m := gdtSetGate desc m 0 0 0 0 0
  let m := gdtSetGate desc m 1 0 0xFFFFFFFF 0x9A 0xCF
  let m := gdtSetGate desc m 2 0 0xFFFFFFFF 0x92 0xCF
  let m := gdtSetGate desc m 3 0 0xFFFFFFFF 0xFA 0xCF
  gdtSetGate desc m 4 0 0xFFFFFFFF 0xF2 0xCF

/-- A segment as the processor decodes it; `flags` has granularity, size and L from bit 3 down. -/
structure Segment where
  base : ℕ
  limit : ℕ
  access : ℕ
  flags : ℕ
  deriving DecidableEq

def segmentOf (m : Mem) (desc num : ℕ) : Segment where
  base := read16 m (desc + num * 8 + 2) + 2 ^ 16 * (m (desc + num * 8 + 4)).toNat + 2 ^ 24 * (m (desc + num * 8 + 7)).toNat
  limit := read16 m (desc + num * 8) + 2 ^ 16 * ((m (desc + num * 8 + 6)).toNat % 16)
  access := (m (desc + num * 8 + 5)).toNat
  flags := (m (desc + num * 8 + 6)).toNat / 16

namespace Segment

/-- The last offset inside the segment. -/
def last (s : Segment) : ℕ := if s.flags / 8 % 2 = 1 then s.limit * 4096 + 4095 else s.limit

abbrev Present (s : Segment) : Prop := s.access / 128 = 1

def dpl (s : Segment) : ℕ := s.access / 32 % 4

abbrev Code (s : Segment) : Prop := s.access / 8 % 4 = 3

abbrev Data (s : Segment) : Prop := s.access / 8 % 4 = 2

/-- The access byte has readable code or writable data in bit 1. -/
abbrev Permits (s : Segment) : Prop := s.access / 2 % 2 = 1

end Segment

/-- `idt` is the address of the table. -/
def idtSetGate (idt : ℕ) (m : Mem) (num base flags : ℕ) : Mem :=
  let entry := idt + num * SIZEOF_IDT_ENTRY
  let m := write16 m entry (base % 2 ^ 16)
  let m := write16 m (entry + 2) 0x08
  let m := Function.update m (entry + 5) (BitVec.ofNat 8 flags)
  let m := write16 m (entry + 6) (base / 2 ^ 16 % 2 ^ 16)
  Function.update m (entry + 4) 0

/-- The vectors of `init_idt` with the flags of their gates. -/
def idtGates : List (ℕ × ℕ) :=
  (List.range 32).map (fun num => (num, 0x80 ||| 0x0E)) ++
    [(0x30, 0x80 ||| 0x0F), (0x31, 0x80 ||| 0x0E), (0x32, 0x80 ||| 0x0F), (0x33, 0x80 ||| 0x0F), (0x80, 0x80 ||| 0x0F)]

/-- `stub` gives the addresses of the stubs; one byte of the table is not cleared. -/
def initIdt (idt : ℕ) (stub : ℕ → BitVec 32) (m : Mem) : Mem :=
  idtGates.foldl (fun m g => idtSetGate idt m g.1 (stub g.1).toNat g.2) (memset m idt 0 (SIZEOF_IDT_ENTRY * 256 - 1))

/-- A gate as the processor decodes it. -/
structure Gate where
  type : GateType
  dpl : ℕ
  selector : ℕ
  offset : ℕ
  deriving DecidableEq

/-- The gates of 32 bits; with other types, and with the present bit clear, the processor faults. -/
def gateType (flags : ℕ) : Option GateType :=
  if flags / 128 = 0 then none
  else if flags % 32 = 0x0E then some .interrupt
  else if flags % 32 = 0x0F then some .trap
  else none

def gateOf (m : Mem) (idt num : ℕ) : Option Gate :=
  (gateType (m (idt + num * 8 + 5)).toNat).map fun type =>
    ⟨type, (m (idt + num * 8 + 5)).toNat / 32 % 4, read16 m (idt + num * 8 + 2),
      read16 m (idt + num * 8) + 2 ^ 16 * read16 m (idt + num * 8 + 6)⟩

variable {m m' : Mem} {desc idt num num' base limit access gran flags : ℕ} {stub : ℕ → BitVec 32}

lemma gdtSetGate_outside {x : ℕ} (h : x < desc + num * 8 ∨ desc + num * 8 + 8 ≤ x) :
    gdtSetGate desc m num base limit access gran x = m x := by
  rw [gdtSetGate, SIZEOF_GDT_ENTRY]
  rw [Function.update_of_ne (by omega), Function.update_of_ne (by omega), Function.update_of_ne (by omega),
    write16_of_outside (by omega), Function.update_of_ne (by omega), Function.update_of_ne (by omega), write16_of_outside (by omega)]

lemma segmentOf_congr (h : ∀ i < 8, m' (desc + num * 8 + i) = m (desc + num * 8 + i)) : segmentOf m' desc num = segmentOf m desc num := by
  have h4 := h 4 (by decide)
  have h5 := h 5 (by decide)
  have h6 := h 6 (by decide)
  have h7 := h 7 (by decide)
  have hlimit : read16 m' (desc + num * 8) = read16 m (desc + num * 8) := read16_congr fun i hi => h i (by omega)
  have hbase : read16 m' (desc + num * 8 + 2) = read16 m (desc + num * 8 + 2) := read16_congr fun i hi => by
    rw [Nat.add_assoc]
    exact h (2 + i) (by omega)
  rw [segmentOf, segmentOf, h4, h5, h6, h7, hlimit, hbase]

lemma segmentOf_gdtSetGate_ne (h : num' ≠ num) :
    segmentOf (gdtSetGate desc m num base limit access gran) desc num' = segmentOf m desc num' :=
  segmentOf_congr fun i hi => gdtSetGate_outside (by omega)

lemma toNat_and_high (x : BitVec 8) : (x &&& 0xF0).toNat = 16 * (x.toNat / 16) := by
  revert x
  decide

/-- The byte that limit and flags share. -/
lemma toNat_nibbles (x y : BitVec 8) : ((x &&& 0x0F) ||| (y &&& 0xF0)).toNat = 16 * (y.toNat / 16) + x.toNat % 16 := by
  have hx : (x &&& 0x0F).toNat = x.toNat % 16 := by
    rw [BitVec.toNat_and]
    exact Nat.and_two_pow_sub_one_eq_mod x.toNat 4
  rw [BitVec.toNat_or, hx, toNat_and_high, Nat.or_comm]
  exact (Nat.two_pow_add_eq_or_of_lt (i := 4) (Nat.mod_lt _ (by norm_num)) _).symm

lemma read16_update {a x : ℕ} {b : BitVec 8} (h : x < a ∨ a + 2 ≤ x) : read16 (Function.update m x b) a = read16 m a :=
  read16_congr fun i hi => Function.update_of_ne (by omega) ..

lemma read16_write16_of_disjoint {a b v : ℕ} (h : a + 2 ≤ b ∨ b + 2 ≤ a) : read16 (write16 m a v) b = read16 m b :=
  read16_congr fun i hi => write16_of_outside (by omega)

lemma segmentOf_gdtSetGate : segmentOf (gdtSetGate desc m num base limit access gran) desc num =
    ⟨base % 2 ^ 32, limit % 2 ^ 20, access % 2 ^ 8, gran / 2 ^ 4 % 2 ^ 4⟩ := by
  set e := desc + num * 8 with he
  have hlimit : read16 (gdtSetGate desc m num base limit access gran) e = limit % 2 ^ 16 := by
    simp (disch := omega) only [gdtSetGate, SIZEOF_GDT_ENTRY, ← he, read16_update, read16_write16_self, Nat.mod_mod]
  have hbase : read16 (gdtSetGate desc m num base limit access gran) (e + 2) = base % 2 ^ 16 := by
    simp (disch := omega) only [gdtSetGate, SIZEOF_GDT_ENTRY, ← he, read16_update, read16_write16_of_disjoint, read16_write16_self,
      Nat.mod_mod]
  have hmid : gdtSetGate desc m num base limit access gran (e + 4) = BitVec.ofNat 8 (base / 2 ^ 16) := by
    simp (disch := omega) only [gdtSetGate, SIZEOF_GDT_ENTRY, ← he, Function.update_of_ne, Function.update_self, write16_of_outside]
  have hhigh : gdtSetGate desc m num base limit access gran (e + 7) = BitVec.ofNat 8 (base / 2 ^ 24) := by
    simp (disch := omega) only [gdtSetGate, SIZEOF_GDT_ENTRY, ← he, Function.update_of_ne, Function.update_self, write16_of_outside]
  have haccess : gdtSetGate desc m num base limit access gran (e + 5) = BitVec.ofNat 8 access := by
    simp only [gdtSetGate, SIZEOF_GDT_ENTRY, ← he, Function.update_self]
  have hgran : gdtSetGate desc m num base limit access gran (e + 6) =
      (BitVec.ofNat 8 (limit / 2 ^ 16) &&& 0x0F) ||| (BitVec.ofNat 8 gran &&& 0xF0) := by
    simp (disch := omega) only [gdtSetGate, SIZEOF_GDT_ENTRY, ← he, Function.update_of_ne, Function.update_self]
  rw [segmentOf, ← he, hlimit, hbase, hmid, hhigh, haccess, hgran, toNat_nibbles]
  simp only [BitVec.toNat_ofNat, Segment.mk.injEq]
  refine ⟨?_, ?_, trivial, ?_⟩ <;> omega

/-- An entry reads back as it was set: the base in full, 20 bits of the limit, the flags from the high half of `gran`. -/
theorem gdtSetGate_decodes (desc : ℕ) (m : Mem) (num base limit access gran : ℕ) :
    segmentOf (gdtSetGate desc m num base limit access gran) desc num =
      ⟨base % 2 ^ 32, limit % 2 ^ 20, access % 2 ^ 8, gran / 2 ^ 4 % 2 ^ 4⟩ ∧
    (∀ num', num' ≠ num → segmentOf (gdtSetGate desc m num base limit access gran) desc num' = segmentOf m desc num') ∧
    ∀ x, x < desc + num * 8 ∨ desc + num * 8 + 8 ≤ x → gdtSetGate desc m num base limit access gran x = m x :=
  ⟨segmentOf_gdtSetGate, fun _ => segmentOf_gdtSetGate_ne, fun _ => gdtSetGate_outside⟩

/-- The first selector is null, and each of the others reaches all of the address space. -/
lemma gdtInstall_flat (desc : ℕ) (m : Mem) : segmentOf (gdtInstall desc m) desc 0 = ⟨0, 0, 0, 0⟩ ∧
    ∀ num, 1 ≤ num → num ≤ 4 → (segmentOf (gdtInstall desc m) desc num).base = 0 ∧
      (segmentOf (gdtInstall desc m) desc num).last = 2 ^ 32 - 1 ∧ (segmentOf (gdtInstall desc m) desc num).Present ∧
      (segmentOf (gdtInstall desc m) desc num).Permits ∧ (segmentOf (gdtInstall desc m) desc num).dpl = (if num ≤ 2 then 0 else 3) ∧
      if num % 2 = 1 then (segmentOf (gdtInstall desc m) desc num).Code else (segmentOf (gdtInstall desc m) desc num).Data := by
  have hother : ∀ {m' : Mem} {n n' b l a g : ℕ}, n' ≠ n → segmentOf (gdtSetGate desc m' n b l a g) desc n' = segmentOf m' desc n' :=
    segmentOf_gdtSetGate_ne
  have h₄ : segmentOf (gdtInstall desc m) desc 4 = ⟨0, 0xFFFFF, 0xF2, 0xC⟩ := segmentOf_gdtSetGate
  have h₃ : segmentOf (gdtInstall desc m) desc 3 = ⟨0, 0xFFFFF, 0xFA, 0xC⟩ := (hother (by decide)).trans segmentOf_gdtSetGate
  have h₂ : segmentOf (gdtInstall desc m) desc 2 = ⟨0, 0xFFFFF, 0x92, 0xC⟩ :=
    (hother (by decide)).trans ((hother (by decide)).trans segmentOf_gdtSetGate)
  have h₁ : segmentOf (gdtInstall desc m) desc 1 = ⟨0, 0xFFFFF, 0x9A, 0xC⟩ :=
    (hother (by decide)).trans ((hother (by decide)).trans ((hother (by decide)).trans segmentOf_gdtSetGate))
  refine ⟨(hother (by decide)).trans ((hother (by decide)).trans ((hother (by decide)).trans
    ((hother (by decide)).trans segmentOf_gdtSetGate))), fun num hlo hhi => ?_⟩
  obtain rfl | rfl | rfl | rfl : num = 1 ∨ num = 2 ∨ num = 3 ∨ num = 4 := by omega
  · rw [h₁]
    decide
  · rw [h₂]
    decide
  · rw [h₃]
    decide
  · rw [h₄]
    decide

lemma idtSetGate_outside {x : ℕ} (h : x < idt + num * 8 ∨ idt + num * 8 + 8 ≤ x) : idtSetGate idt m num base flags x = m x := by
  rw [idtSetGate, SIZEOF_IDT_ENTRY]
  rw [Function.update_of_ne (by omega), write16_of_outside (by omega), Function.update_of_ne (by omega), write16_of_outside (by omega),
    write16_of_outside (by omega)]

lemma gateOf_congr (h : ∀ i < 8, m' (idt + num * 8 + i) = m (idt + num * 8 + i)) : gateOf m' idt num = gateOf m idt num := by
  have hread : ∀ k, k + 2 ≤ 8 → read16 m' (idt + num * 8 + k) = read16 m (idt + num * 8 + k) := fun k hk =>
    read16_congr fun i hi => by
      rw [Nat.add_assoc]
      exact h (k + i) (by omega)
  rw [gateOf, gateOf, h 5 (by decide), hread 2 (by decide), hread 6 (by decide),
    show read16 m' (idt + num * 8) = read16 m (idt + num * 8) from hread 0 (by decide)]

lemma gateOf_idtSetGate_ne (h : num' ≠ num) : gateOf (idtSetGate idt m num base flags) idt num' = gateOf m idt num' :=
  gateOf_congr fun i hi => idtSetGate_outside (by omega)

lemma gateOf_idtSetGate (hb : base < 2 ^ 32) (hf : flags < 2 ^ 8) : gateOf (idtSetGate idt m num base flags) idt num =
    (gateType flags).map fun type => ⟨type, flags / 32 % 4, 0x08, base⟩ := by
  set e := idt + num * 8 with he
  have hlow : read16 (idtSetGate idt m num base flags) e = base % 2 ^ 16 := by
    simp (disch := omega) only [idtSetGate, SIZEOF_IDT_ENTRY, ← he, read16_update, read16_write16_of_disjoint, read16_write16_self,
      Nat.mod_mod]
  have hselector : read16 (idtSetGate idt m num base flags) (e + 2) = 0x08 := by
    simp (disch := omega) only [idtSetGate, SIZEOF_IDT_ENTRY, ← he, read16_update, read16_write16_of_disjoint, read16_write16_self]
    rfl
  have hhigh : read16 (idtSetGate idt m num base flags) (e + 6) = base / 2 ^ 16 % 2 ^ 16 := by
    simp (disch := omega) only [idtSetGate, SIZEOF_IDT_ENTRY, ← he, read16_update, read16_write16_self, Nat.mod_mod]
  have hflags : (idtSetGate idt m num base flags (e + 5)).toNat = flags := by
    simp (disch := omega) only [idtSetGate, SIZEOF_IDT_ENTRY, ← he, Function.update_of_ne, Function.update_self, write16_of_outside,
      BitVec.toNat_ofNat, Nat.mod_eq_of_lt]
  have hbase : base % 2 ^ 16 + 2 ^ 16 * (base / 2 ^ 16 % 2 ^ 16) = base := by omega
  rw [gateOf, ← he, hlow, hselector, hhigh, hflags, hbase]

/-- The gates after a sequence of calls for different vectors. -/
lemma gateOf_idtSetGates {gates : List (ℕ × ℕ)} (hf : ∀ g ∈ gates, g.2 < 2 ^ 8)
    (hn : (gates.map Prod.fst).Nodup) (m : Mem) (v : ℕ) :
    gateOf (gates.foldl (fun m g => idtSetGate idt m g.1 (stub g.1).toNat g.2) m) idt v =
      match gates.lookup v with
      | some flags => (gateType flags).map fun type => ⟨type, flags / 32 % 4, 0x08, (stub v).toNat⟩
      | none => gateOf m idt v := by
  induction gates generalizing m with
  | nil => rfl
  | cons g gates ih =>
    obtain ⟨n, flags⟩ := g
    obtain ⟨hnew, hn⟩ := List.nodup_cons.mp hn
    rw [List.foldl_cons, ih (fun g hg => hf g (List.mem_cons_of_mem _ hg)) hn, List.lookup_cons]
    by_cases hv : v = n
    · subst hv
      have hlookup : gates.lookup v = none := by
        rw [List.lookup_eq_none_iff]
        intro g hg
        have hne : v ≠ g.1 := fun h => hnew (List.mem_map.mpr ⟨g, hg, h.symm⟩)
        simpa using hne
      rw [hlookup, beq_self_eq_true]
      exact gateOf_idtSetGate (stub v).isLt (hf _ List.mem_cons_self)
    · rw [beq_eq_false_iff_ne.mpr hv]
      cases gates.lookup v with
      | none => exact gateOf_idtSetGate_ne hv
      | some flags => rfl

lemma idtGates_lookup : ∀ v < 256, idtGates.lookup v =
    if v < 32 ∨ v = 0x31 then some 0x8E else if v ∈ [0x30, 0x32, 0x33, 0x80] then some 0x8F else none := by
  decide +kernel

lemma initIdt_gate {v : ℕ} (hv : v < 256) : gateOf (initIdt idt stub m) idt v =
    if v < 32 ∨ v = 0x31 then some ⟨.interrupt, 0, 0x08, (stub v).toNat⟩
    else if v ∈ [0x30, 0x32, 0x33, 0x80] then some ⟨.trap, 0, 0x08, (stub v).toNat⟩ else none := by
  rw [initIdt, gateOf_idtSetGates (by decide) (by decide), idtGates_lookup v hv]
  split_ifs with h₁ h₂
  · rfl
  · rfl
  · -- the byte with the present bit is among those cleared
    have hzero : memset m idt 0 (SIZEOF_IDT_ENTRY * 256 - 1) (idt + v * 8 + 5) = 0 :=
      memset_inside (by omega) (by rw [SIZEOF_IDT_ENTRY]; omega)
    rw [gateOf, hzero]
    rfl

end WordOS.Kernel
