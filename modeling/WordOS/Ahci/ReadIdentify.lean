import Mathlib.Data.BitVec
import Mathlib.Tactic.IntervalCases

/-! The IDENTIFY block of a disk and what `read_identify` takes from it. -/

namespace WordOS.Ahci

/-- `struct ahci_ram_ports`, without the pointer to the registers. -/
structure RamPorts where
  clbAddr : ℕ
  ctlbAddr : ℕ
  fbAddr : ℕ
  sig : BitVec 16
  cap : BitVec 16
  cmdSet : BitVec 32
  sectorWords : BitVec 32
  lbaCount : BitVec 64
  model : ℕ → BitVec 8

/-- What the machine gives for a shift of an `int` by 32 bits or more, which C leaves open. -/
structure OverWide where
  shift : BitVec 32 → ℕ → BitVec 32
  zero : ∀ k, shift 0 k = 0

namespace OverWide

def folded : OverWide := ⟨fun _ _ => 0, fun _ => rfl⟩

/-- The shift instruction of the processor, which takes the count modulo 32. -/
def masked : OverWide := ⟨fun x k => x <<< (k % 32), fun k => BitVec.zero_shiftLeft (k % 32)⟩

/-- `word << k`, where the word is promoted to `int` first. -/
def shl (o : OverWide) (word : BitVec 16) (k : ℕ) : BitVec 32 :=
  if k < 32 then word.setWidth 32 <<< k else o.shift (word.setWidth 32) k

end OverWide

def ATA_IDENTIFY_SIGNATURE : ℕ := 0
def ATA_IDENTIFY_CAP : ℕ := 49
def ATA_IDENTIFY_MODEL : ℕ := 27
def ATA_IDENTIFY_CMD_SET : ℕ := 82
def ATA_IDENTIFY_SECTOR_WORDS : ℕ := 117
def ATA_IDENTIFY_SECTOR_INFO : ℕ := 106
def ATA_IDENTIFY_LBA_COUNT : ℕ := 60
def ATA_IDENTIFY_LBA_COUNT_EXT : ℕ := 100
def ATA_CMDSET_48SUPPORT : BitVec 32 := 1#32 <<< 26

/-- The result has 32 bits. -/
def ataDiskSize (port : RamPorts) : BitVec 32 :=
  ((port.sectorWords * 2).setWidth 64 * port.lbaCount).setWidth 32

def lbaCount (o : OverWide) (data : ℕ → BitVec 16) (cmdSet : BitVec 32) : BitVec 64 :=
  if cmdSet &&& ATA_CMDSET_48SUPPORT ≠ 0 then
    (o.shl (data ATA_IDENTIFY_LBA_COUNT_EXT) 0).signExtend 64 |||
      (o.shl (data (ATA_IDENTIFY_LBA_COUNT_EXT + 1)) 16).signExtend 64 |||
      (o.shl (data (ATA_IDENTIFY_LBA_COUNT_EXT + 2)) 32).signExtend 64 |||
      (o.shl (data (ATA_IDENTIFY_LBA_COUNT_EXT + 3)) 48).signExtend 64
  else
    (o.shl (data ATA_IDENTIFY_LBA_COUNT) 0).signExtend 64 |||
      (o.shl (data (ATA_IDENTIFY_LBA_COUNT + 1)) 16).signExtend 64

def sectorWords (o : OverWide) (data : ℕ → BitVec 16) : BitVec 32 :=
  if (data ATA_IDENTIFY_SECTOR_INFO).setWidth 32 &&& 1#32 <<< 12 ≠ 0 then
    o.shl (data ATA_IDENTIFY_SECTOR_WORDS) 0 ||| o.shl (data (ATA_IDENTIFY_SECTOR_WORDS + 1)) 16
  else 256

/-- The first `n` words of the model's name, high byte first. -/
def storeModel (data : ℕ → BitVec 16) (model : ℕ → BitVec 8) : (n : ℕ) → ℕ → BitVec 8
  | 0 => model
  | i + 1 =>
    let word := data (ATA_IDENTIFY_MODEL + i)
    Function.update (Function.update (storeModel data model i) (i * 2) ((word >>> 8).setWidth 8)) (i * 2 + 1) (word.setWidth 8)

def modelLen (model : ℕ → BitVec 8) : ℕ → ℕ
  | 0 => 0
  | n + 1 => if model n = 0x20 then modelLen model n else n + 1

def readModel (data : ℕ → BitVec 16) (model : ℕ → BitVec 8) : ℕ → BitVec 8 :=
  let model := Function.update (storeModel data model 20) 40 0
  Function.update model (modelLen model 40) 0

/-- The port with its fields set, and `total_bytes`. -/
def readIdentify (o : OverWide) (data : ℕ → BitVec 16) (port : RamPorts) : RamPorts × BitVec 64 :=
  let cmdSet := o.shl (data ATA_IDENTIFY_CMD_SET) 0 ||| o.shl (data (ATA_IDENTIFY_CMD_SET + 1)) 16
  let port := { port with
    sig := data ATA_IDENTIFY_SIGNATURE
    cap := data ATA_IDENTIFY_CAP
    cmdSet
    lbaCount := lbaCount o data cmdSet
    sectorWords := sectorWords o data }
  ({ port with model := readModel data port.model }, (ataDiskSize port).setWidth 64)

/-- The values that the block names, read little-endian. -/
def has48 (data : ℕ → BitVec 16) : Bool := (data 83).getLsbD 10

def diskLbas (data : ℕ → BitVec 16) : ℕ :=
  if has48 data then
    (data 100).toNat + 2 ^ 16 * (data 101).toNat + 2 ^ 32 * (data 102).toNat + 2 ^ 48 * (data 103).toNat
  else (data 60).toNat + 2 ^ 16 * (data 61).toNat

def diskSectorWords (data : ℕ → BitVec 16) : ℕ :=
  if (data 106).getLsbD 12 then (data 117).toNat + 2 ^ 16 * (data 118).toNat else 256

structure Identified (o : OverWide) (data : ℕ → BitVec 16) (port : RamPorts) : Prop where
  lbas : (readIdentify o data port).1.lbaCount.toNat = diskLbas data
  sector : (readIdentify o data port).1.sectorWords.toNat = diskSectorWords data
  total : diskLbas data * (2 * diskSectorWords data) < 2 ^ 64 →
    (readIdentify o data port).2.toNat = diskLbas data * (2 * diskSectorWords data)

variable {o : OverWide} {data : ℕ → BitVec 16} {port : RamPorts} {w v : BitVec 16}

lemma toNat_words : (w ++ v).toNat = v.toNat + 2 ^ 16 * w.toNat := by
  have hv := v.isLt
  rw [BitVec.toNat_append, ← Nat.shiftLeft_add_eq_or_of_lt hv, Nat.shiftLeft_eq]
  omega

lemma shl_or_shl : o.shl v 0 ||| o.shl w 16 = w ++ v := by
  have hlow : o.shl v 0 = v.setWidth 32 := by simp [OverWide.shl]
  have hhigh : o.shl w 16 = w.setWidth 32 <<< 16 := by simp [OverWide.shl]
  apply BitVec.eq_of_getLsbD_eq
  intro i hi
  rw [hlow, hhigh, BitVec.getLsbD_or, BitVec.getLsbD_setWidth, BitVec.getLsbD_shiftLeft, BitVec.getLsbD_setWidth,
    BitVec.getLsbD_append]
  by_cases h : i < 16
  · simp [h, hi]
  · have hv : v.getLsbD i = false := BitVec.getLsbD_of_ge v i (by omega)
    have hi' : i - 16 < 32 := by omega
    simp [h, hi, hv, hi']

lemma and_bit_ne_zero {n : ℕ} {x : BitVec n} {i : ℕ} (hi : i < n) : x &&& 1#n <<< i ≠ 0 ↔ x.getLsbD i = true := by
  rw [← BitVec.twoPow_eq, BitVec.and_twoPow]
  cases x.getLsbD i with
  | true =>
    have hne : BitVec.twoPow n i ≠ 0 := by
      intro h
      have hh := congrArg BitVec.toNat h
      rw [BitVec.toNat_twoPow_of_lt hi] at hh
      exact absurd hh (Nat.two_pow_pos i).ne'
    simpa using hne
  | false => simp

lemma sectorWords_eq : (sectorWords o data).toNat = diskSectorWords data := by
  have hbit : (data ATA_IDENTIFY_SECTOR_INFO).setWidth 32 &&& 1#32 <<< 12 ≠ 0 ↔ (data 106).getLsbD 12 = true := by
    rw [and_bit_ne_zero (by decide), BitVec.getLsbD_setWidth]
    simp [ATA_IDENTIFY_SECTOR_INFO]
  rw [sectorWords, diskSectorWords, shl_or_shl]
  by_cases h : (data 106).getLsbD 12 = true
  · rw [if_pos (hbit.mpr h), if_pos h]
    exact toNat_words
  · rw [if_neg (mt hbit.mp h), if_neg h]
    rfl

lemma test48 {cmdSet : BitVec 32} (h : cmdSet = data 83 ++ data 82) : cmdSet &&& ATA_CMDSET_48SUPPORT ≠ 0 ↔ has48 data = true := by
  rw [ATA_CMDSET_48SUPPORT, and_bit_ne_zero (by decide), h, BitVec.getLsbD_append]
  simp [has48]

/-- The sign of the `int` comes in above bit 31. -/
lemma toNat_signExtend_words : ((w ++ v).signExtend 64).toNat =
    v.toNat + 2 ^ 16 * w.toNat + if w.toNat < 2 ^ 15 then 0 else 2 ^ 64 - 2 ^ 32 := by
  have hlt := (w ++ v).isLt
  have hmsb : (w ++ v).msb = decide (2 ^ 15 ≤ w.toNat) := by
    have hv := v.isLt
    rw [BitVec.msb_eq_decide, toNat_words]
    exact decide_eq_decide.mpr (by omega)
  rw [BitVec.toNat_signExtend, BitVec.toNat_setWidth, Nat.mod_eq_of_lt (by omega), hmsb, toNat_words]
  by_cases h : w.toNat < 2 ^ 15
  · rw [if_pos h, if_neg (by simpa using h)]
  · rw [if_neg h, if_pos (by simpa using h)]

def LbasRight (data : ℕ → BitVec 16) : Prop :=
  if has48 data then
    ((data 101).toNat < 2 ^ 15 ∧ data 102 = 0 ∧ data 103 = 0) ∨ ∀ i, 100 ≤ i → i < 104 → (data i).toNat = 2 ^ 16 - 1
  else (data 61).toNat < 2 ^ 15

variable {cmdSet : BitVec 32}

lemma lbaCount_short (hc : cmdSet = data 83 ++ data 82) (h : has48 data = false) :
    lbaCount o data cmdSet = (data 61 ++ data 60).signExtend 64 := by
  have htest : ¬ cmdSet &&& ATA_CMDSET_48SUPPORT ≠ 0 := by
    rw [test48 hc, h]
    decide
  rw [lbaCount, if_neg htest, ← BitVec.signExtend_or, shl_or_shl]
  rfl

lemma lbaCount_short_iff (hc : cmdSet = data 83 ++ data 82) (h : has48 data = false) :
    (lbaCount o data cmdSet).toNat = diskLbas data ↔ LbasRight data := by
  rw [lbaCount_short hc h, toNat_signExtend_words, diskLbas, LbasRight, h]
  simp only [Bool.false_eq_true, if_false]
  by_cases hw : (data 61).toNat < 2 ^ 15
  · exact iff_of_true (by rw [if_pos hw, Nat.add_zero]) hw
  · rw [if_neg hw]
    exact iff_of_false (by omega) hw

lemma lbaCount_long (hc : cmdSet = data 83 ++ data 82) (h : has48 data = true) :
    lbaCount o data cmdSet = (data 101 ++ data 100).signExtend 64 |||
      (o.shl (data 102) 32).signExtend 64 ||| (o.shl (data 103) 48).signExtend 64 := by
  rw [lbaCount, if_pos ((test48 hc).mpr h), ← BitVec.signExtend_or, shl_or_shl]
  rfl

lemma lbaCount_folded (hc : cmdSet = data 83 ++ data 82) (h : has48 data = true) :
    lbaCount .folded data cmdSet = (data 101 ++ data 100).signExtend 64 := by
  have h32 : OverWide.folded.shl (data 102) 32 = 0 := rfl
  have h48 : OverWide.folded.shl (data 103) 48 = 0 := rfl
  rw [lbaCount_long hc h, h32, h48]
  simp

/-- With both upper words all ones, the shifts by 0 and 16 in place of 32 and 48 set every bit. -/
lemma lbaCount_masked (hc : cmdSet = data 83 ++ data 82) (h : has48 data = true) (h2 : (data 102).toNat = 2 ^ 16 - 1)
    (h3 : (data 103).toNat = 2 ^ 16 - 1) : lbaCount .masked data cmdSet = BitVec.allOnes 64 := by
  have h2' : data 102 = BitVec.allOnes 16 := BitVec.eq_of_toNat_eq (by rw [h2, BitVec.toNat_allOnes])
  have h3' : data 103 = BitVec.allOnes 16 := BitVec.eq_of_toNat_eq (by rw [h3, BitVec.toNat_allOnes])
  have hhigh : (OverWide.masked.shl (data 102) 32).signExtend 64 ||| (OverWide.masked.shl (data 103) 48).signExtend 64 =
      BitVec.allOnes 64 := by
    rw [h2', h3']
    decide
  rw [lbaCount_long hc h, BitVec.or_assoc, hhigh, BitVec.or_allOnes]

lemma lbaCount_long_iff (hc : cmdSet = data 83 ++ data 82) (h : has48 data = true) :
    (∀ o, (lbaCount o data cmdSet).toNat = diskLbas data) ↔ LbasRight data := by
  have hlt := fun i => (data i).isLt
  have h0 := hlt 100
  have h1 := hlt 101
  have h2 := hlt 102
  have h3 := hlt 103
  have hzero : ∀ i, (data i).toNat = 0 → data i = 0 := fun i hi => BitVec.eq_of_toNat_eq hi
  rw [LbasRight, diskLbas, h]
  simp only [if_true]
  constructor
  · intro hall
    have hfolded := hall .folded
    rw [lbaCount_folded hc h, toNat_signExtend_words] at hfolded
    by_cases hw : (data 101).toNat < 2 ^ 15
    · rw [if_pos hw] at hfolded
      exact Or.inl ⟨hw, hzero 102 (by omega), hzero 103 (by omega)⟩
    · rw [if_neg hw] at hfolded
      have o2 : (data 102).toNat = 2 ^ 16 - 1 := by omega
      have o3 : (data 103).toNat = 2 ^ 16 - 1 := by omega
      have hmasked := hall .masked
      rw [lbaCount_masked hc h o2 o3, BitVec.toNat_allOnes] at hmasked
      right
      intro i hlow hhigh
      interval_cases i
      · omega
      · omega
      · exact o2
      · exact o3
  · rintro (⟨hw, z2, z3⟩ | hones) o
    · have hz : ∀ k, 32 ≤ k → o.shl (0 : BitVec 16) k = 0 := by
        intro k hk
        rw [OverWide.shl, if_neg (by omega)]
        exact o.zero k
      have hext : (0 : BitVec 32).signExtend 64 = 0#64 := by decide
      rw [lbaCount_long hc h, z2, z3, hz 32 (by decide), hz 48 (by decide), hext, BitVec.or_zero, BitVec.or_zero,
        toNat_signExtend_words, if_pos hw]
      rfl
    · have o0 : (data 100).toNat = 2 ^ 16 - 1 := hones 100 (by decide) (by decide)
      have o1 : (data 101).toNat = 2 ^ 16 - 1 := hones 101 (by decide) (by decide)
      have o2 : (data 102).toNat = 2 ^ 16 - 1 := hones 102 (by decide) (by decide)
      have o3 : (data 103).toNat = 2 ^ 16 - 1 := hones 103 (by decide) (by decide)
      have hlow : (data 101 ++ data 100).signExtend 64 = BitVec.allOnes 64 := by
        apply BitVec.eq_of_toNat_eq
        rw [toNat_signExtend_words, o0, o1, BitVec.toNat_allOnes]
        decide
      rw [lbaCount_long hc h, hlow, BitVec.allOnes_or, BitVec.allOnes_or, BitVec.toNat_allOnes, o0, o1, o2, o3]
      decide

lemma ataDiskSize_eq (port : RamPorts) :
    (ataDiskSize port).toNat = port.lbaCount.toNat * (2 * port.sectorWords.toNat) % 2 ^ 32 := by
  have hdvd : 2 ^ 32 ∣ 2 ^ 64 := pow_dvd_pow 2 (by decide)
  have hbytes : ((port.sectorWords * 2).setWidth 64).toNat = port.sectorWords.toNat * 2 % 2 ^ 32 := by
    rw [BitVec.toNat_setWidth_of_le (by decide), BitVec.toNat_mul]
    rfl
  rw [ataDiskSize, BitVec.toNat_setWidth, BitVec.toNat_mul, Nat.mod_mod_of_dvd _ hdvd, hbytes, Nat.mod_mul_mod,
    Nat.mul_comm port.lbaCount.toNat, Nat.mul_comm 2]

lemma total_eq : (readIdentify o data port).2.toNat =
    (readIdentify o data port).1.lbaCount.toNat * (2 * diskSectorWords data) % 2 ^ 32 := by
  rw [← sectorWords_eq]
  refine Eq.trans ?_ (ataDiskSize_eq _)
  exact BitVec.toNat_setWidth_of_le (by decide)

lemma lbaCount_iff (port : RamPorts) :
    (∀ o, (readIdentify o data port).1.lbaCount.toNat = diskLbas data) ↔ LbasRight data := by
  have hc : ∀ o : OverWide, o.shl (data ATA_IDENTIFY_CMD_SET) 0 ||| o.shl (data (ATA_IDENTIFY_CMD_SET + 1)) 16 =
      data 83 ++ data 82 := fun o => shl_or_shl
  have hread : ∀ o, (readIdentify o data port).1.lbaCount = lbaCount o data (data 83 ++ data 82) := by
    intro o
    rw [← hc o]
    rfl
  simp only [hread]
  cases h : has48 data with
  | false =>
    constructor
    · intro hall
      exact (lbaCount_short_iff rfl h).mp (hall .folded)
    · intro hr o
      exact (lbaCount_short_iff rfl h).mpr hr
  | true => exact lbaCount_long_iff rfl h

theorem identified_iff (data : ℕ → BitVec 16) (port : RamPorts) :
    (∀ o, Identified o data port) ↔
      LbasRight data ∧
        (diskLbas data * (2 * diskSectorWords data) < 2 ^ 32 ∨ 2 ^ 64 ≤ diskLbas data * (2 * diskSectorWords data)) := by
  rw [← lbaCount_iff port]
  constructor
  · intro h
    refine ⟨fun o => (h o).lbas, ?_⟩
    have htotal := (h .folded).total
    rw [total_eq, (h .folded).lbas] at htotal
    by_contra hsize
    have hmod := htotal (by omega)
    omega
  · rintro ⟨hlbas, hsize⟩ o
    refine ⟨hlbas o, sectorWords_eq, fun hfit => ?_⟩
    rw [total_eq, hlbas o, Nat.mod_eq_of_lt (by omega)]

/-- A disk of 2 ^ 23 sectors of 512 bytes, without the feature bit. -/
def disk4GiB : ℕ → BitVec 16 := Function.update (fun _ => 0) 61 0x80

theorem identified_counterexample : ¬ ∀ (o : OverWide) (data : ℕ → BitVec 16) (port : RamPorts), Identified o data port := by
  intro h
  have hh := (h .folded disk4GiB ⟨0, 0, 0, 0, 0, 0, 0, 0, fun _ => 0⟩).total (by decide)
  rw [total_eq, (h .folded disk4GiB _).lbas] at hh
  exact absurd hh (by decide)

end WordOS.Ahci
