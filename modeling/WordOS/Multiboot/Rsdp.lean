import WordOS.Acpi.Tables
import WordOS.Memory.Paging

/-! The descriptor of the root table, and `init_rsdt_v1` of `mb_parse.c`. -/

namespace WordOS.Multiboot

open Machine Memory Acpi Lib.Bytes

def pgrounddown (x : ℕ) : ℕ := u32 x - u32 x % 1024

def pgroundup (x : ℕ) : ℕ := pgrounddown (x + 1023)

/-- `rsdt_store`, and the pages that have been mapped to themselves. -/
structure Sdts where
  rsdtStore : ℕ
  mapped : List ℕ

/-- `memory_map(current_vmm->root_pd, x, x, ...)` -/
def Sdts.identityMap (s : Sdts) (x : ℕ) : Exec Sdts :=
  if u32 x % 2 ^ 10 ≠ 0 then .error (.panic "PHYSICAL ADDRESS NOT PAGE ALIGNED\n")
  else .ok { s with mapped := u32 x / 4096 :: s.mapped }

def validateRSDP (m : Mem) (byteArray size : ℕ) : UInt8 := if charSum m byteArray size &&& 0xFF = 0 then 1 else 0

/-! Fields of `struct RSDPDescriptor`. -/

def rsdpRevision (m : Mem) (rsdp : ℕ) : ℕ := byteAt m (rsdp + 15)

def rsdpAddress (m : Mem) (rsdp : ℕ) : ℕ := wordAt m (rsdp + 16)

/-- `old_acpi->rsdp` -/
def rsdpOf (oldAcpi : ℕ) : ℕ := oldAcpi + 8

/-- `init_rsdt_v1` from the first `memory_map` on. -/
def mapRsdt (m : Mem) (rsdtAddress : ℕ) (s : Sdts) : Exec Sdts := do
  let s ← s.identityMap (pageOf rsdtAddress)
  let s ←
    if u32 (sdtLength m rsdtAddress + rsdtAddress) > pgroundup rsdtAddress then
      -- the sum stands inside of the mask
      s.identityMap (rsdtAddress &&& u32 (0xFFFFF000 + 4096))
    else .ok s
  return { s with rsdtStore := rsdtAddress }

def initRsdtV1 (n : ℕ) (m : Mem) (oldAcpi : ℕ) (s : Sdts) : Exec Sdts := do
  if oldAcpi = 0 then return s
  let rsdp := rsdpOf oldAcpi
  if 2 ≤ rsdpRevision m rsdp then
    if (← validateTable n m rsdp) = 0 then throw (.panic "XSDT NOT VALIDATED \n")
    throw (.panic "Xsdt validated :^) (No support)\n")
  if validateRSDP m rsdp 19 ≠ 0 then throw (.panic "RSDP NOT VALIDATED >><< \n")
  mapRsdt m (rsdpAddress m rsdp) s

variable {m : Mem} {a n k x oldAcpi rsdtAddress : ℕ} {s t : Sdts}

/-- The first twenty bytes of the descriptor decide whether `RsdtAddress` is used. -/
structure ChecksRight (n : ℕ) (m : Mem) (oldAcpi : ℕ) (s : Sdts) : Prop where
  accepts : byteSum m (rsdpOf oldAcpi) 20 % 256 = 0 →
    initRsdtV1 n m oldAcpi s = mapRsdt m (rsdpAddress m (rsdpOf oldAcpi)) s
  rejects : byteSum m (rsdpOf oldAcpi) 20 % 256 ≠ 0 → ∃ reason, initRsdtV1 n m oldAcpi s = .error (.panic reason)

lemma identityMap_ok (h : u32 x % 1024 = 0) : s.identityMap x = .ok { s with mapped := u32 x / 4096 :: s.mapped } :=
  if_neg (not_not.mpr h)

lemma mapRsdt_ok (h : rsdtAddress < 2 ^ 32) : mapRsdt m rsdtAddress s = .ok ⟨rsdtAddress,
    (if u32 (sdtLength m rsdtAddress + rsdtAddress) > pgroundup rsdtAddress then [0] else []) ++
      rsdtAddress / 4096 :: s.mapped⟩ := by
  have hpage : u32 (pageOf rsdtAddress) = pageOf rsdtAddress := u32_eq (by rw [pageOf]; omega)
  have hfirst : s.identityMap (pageOf rsdtAddress) = .ok { s with mapped := rsdtAddress / 4096 :: s.mapped } := by
    rw [identityMap_ok (by rw [hpage, pageOf]; omega), hpage, pageOf]
    congr 3
    omega
  -- `~0xFFF + 4096` is 0
  have hmask : u32 (0xFFFFF000 + 4096) = 0 := rfl
  rw [mapRsdt, hfirst, ok_bind, hmask, Nat.and_zero]
  by_cases hlong : u32 (sdtLength m rsdtAddress + rsdtAddress) > pgroundup rsdtAddress
  · simp only [if_pos hlong]
    rfl
  · simp only [if_neg hlong]
    rfl

lemma rsdpAddress_lt : rsdpAddress m a < 2 ^ 32 := wordAt_lt

lemma validateRSDP_iff : validateRSDP m a k ≠ 0 ↔ byteSum m a k % 256 = 0 := by
  have hmask : charSum m a k &&& 0xFF = 0 ↔ byteSum m a k % 256 = 0 := by
    rw [← charSum_mod, ← BitVec.toNat_inj, BitVec.toNat_and]
    exact iff_of_eq (congrArg (· = 0) (Nat.and_two_pow_sub_one_eq_mod _ 8))
  rw [validateRSDP, ← hmask]
  split_ifs with h
  · exact iff_of_true (by decide) h
  · exact iff_of_false (by decide) h

lemma initRsdtV1_eq (hp : oldAcpi ≠ 0) (hrev : rsdpRevision m (rsdpOf oldAcpi) < 2) : initRsdtV1 n m oldAcpi s =
    if byteSum m (rsdpOf oldAcpi) 19 % 256 = 0 then .error (.panic "RSDP NOT VALIDATED >><< \n")
    else mapRsdt m (rsdpAddress m (rsdpOf oldAcpi)) s := by
  rw [initRsdtV1, if_neg hp]
  simp only [if_neg (Nat.not_le.mpr hrev), validateRSDP_iff, throw_eq]
  split_ifs <;> rfl

lemma initRsdtV1_returns (hp : oldAcpi ≠ 0) (h : initRsdtV1 n m oldAcpi s = .ok t) :
    mapRsdt m (rsdpAddress m (rsdpOf oldAcpi)) s = .ok t := by
  rcases Nat.lt_or_ge (rsdpRevision m (rsdpOf oldAcpi)) 2 with hrev | hrev
  · rw [initRsdtV1_eq hp hrev] at h
    split_ifs at h with h19
    exact h
  · rw [initRsdtV1, if_neg hp] at h
    simp only [if_pos hrev, throw_eq, error_bind] at h
    obtain ⟨accepted, -, hpanic⟩ := bind_eq_ok.mp h
    rcases ite_eq_iff.mp hpanic with ⟨-, hpanic⟩ | ⟨-, hpanic⟩
    · cases hpanic
    · cases hpanic

/-- The check sums up nineteen bytes and has its test the wrong way round; it is right where the last byte of
`RsdtAddress` makes up for both. -/
theorem checksRight_iff (hp : oldAcpi ≠ 0) (hrev : rsdpRevision m (rsdpOf oldAcpi) < 2) : ChecksRight n m oldAcpi s ↔
    byteAt m (rsdpOf oldAcpi + 19) ≠ 0 ∧ (byteSum m (rsdpOf oldAcpi) 20 % 256 = 0 ∨
      byteSum m (rsdpOf oldAcpi) 20 % 256 = byteAt m (rsdpOf oldAcpi + 19)) := by
  have hsum : byteSum m (rsdpOf oldAcpi) 20 = byteSum m (rsdpOf oldAcpi) 19 + byteAt m (rsdpOf oldAcpi + 19) := byteSum_succ
  have hbyte := byteAt_lt (m := m) (a := rsdpOf oldAcpi + 19)
  have hmap := mapRsdt_ok (m := m) (s := s) (rsdpAddress_lt (m := m) (a := rsdpOf oldAcpi))
  have heq := initRsdtV1_eq (n := n) (s := s) hp hrev
  constructor
  · rintro ⟨haccepts, hrejects⟩
    by_cases h19 : byteSum m (rsdpOf oldAcpi) 19 % 256 = 0
    · rw [if_pos h19] at heq
      have h20 : byteSum m (rsdpOf oldAcpi) 20 % 256 ≠ 0 := by
        intro h20
        have hgo := haccepts h20
        rw [heq, hmap] at hgo
        cases hgo
      omega
    · rw [if_neg h19, hmap] at heq
      have h20 : byteSum m (rsdpOf oldAcpi) 20 % 256 = 0 := by
        by_contra h20
        obtain ⟨reason, hpanic⟩ := hrejects h20
        rw [heq] at hpanic
        cases hpanic
      omega
  · rintro ⟨hne, hcond⟩
    constructor
    · intro h20
      rw [heq, if_neg (by omega)]
    · intro h20
      exact ⟨_, heq.trans (if_pos (by omega))⟩

/-- A descriptor with its checksum right; `b` is the last byte of `RsdtAddress`. -/
def goodRsdp (b : BitVec 8) : Mem := fun a =>
  [0x52, 0x53, 0x44, 0x20, 0x50, 0x54, 0x52, 0x20, 68 - b, 0x42, 0x4F, 0x43, 0x48, 0x53, 0x20, 0, 0, 0, 0x0E, b].getD (a - 16) 0

theorem checksRight_iff_high : ChecksRight 0 (goodRsdp 7) 8 ⟨0, []⟩ :=
  (checksRight_iff (by decide) (by decide)).mpr (by decide)

/-- The same table below 16 MiB. -/
theorem checksRight_low : rsdpRevision (goodRsdp 0) (rsdpOf 8) < 2 ∧ byteSum (goodRsdp 0) (rsdpOf 8) 20 % 256 = 0 ∧
    ¬ ChecksRight 0 (goodRsdp 0) 8 ⟨0, []⟩ := by
  refine ⟨by decide, by decide, fun h => ?_⟩
  have hgo := h.accepts (by decide)
  rw [initRsdtV1_eq (by decide) (by decide), if_pos (by decide), mapRsdt_ok rsdpAddress_lt] at hgo
  cases hgo

end WordOS.Multiboot
