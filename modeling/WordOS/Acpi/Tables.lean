import WordOS.Lib.Loops
import WordOS.Memory.Reads
import Mathlib.Tactic.Ring

/-! System description tables, and the checksum of `acpi.c`. -/

namespace WordOS.Acpi

open Machine Memory Lib.Bytes Lib.Loops

/-! Fields of `struct ACPISDTHeader`. -/

def sdtLength (m : Mem) (h : ℕ) : ℕ := wordAt m (h + 4)

/-- `sizeof(struct ACPISDTHeader)` -/
def SDT_HEADER : ℕ := 36

/-- A `char` as it is added to a `uint32_t`. -/
def charAt (m : Mem) (a : ℕ) : BitVec 32 := (m (u32 a)).signExtend 32

/-- `i` and `total` -/
structure Checksum where
  i : UInt8
  total : BitVec 32

def validateBody (m : Mem) (h : ℕ) (c : Checksum) : Exec (Option Checksum) :=
  if c.i.toNat < sdtLength m h then .ok (some ⟨c.i + 1, c.total + charAt m (h + c.i.toNat)⟩) else .ok none

/-- `n` bounds the tests of the loop. -/
def validateTable (n : ℕ) (m : Mem) (h : ℕ) : Exec UInt8 := do
  let c ← loop .fuel (validateBody m h) n ⟨0, 0⟩
  return if c.total = 0 then 1 else 0

/-- The sum of the `n` bytes from `a` on. -/
def byteSum (m : Mem) (a n : ℕ) : ℕ := ((List.range n).map fun i => byteAt m (a + i)).sum

/-- How many of them are negative as a `char`. -/
def highBytes (m : Mem) (a n : ℕ) : ℕ := (List.range n).countP fun i => 128 ≤ byteAt m (a + i)

def charSum (m : Mem) (a n : ℕ) : BitVec 32 := (List.range n).foldl (fun sum i => sum + charAt m (a + i)) 0

/-- The loop ends, and its answer is whether the bytes of the table add up to 0 modulo 256. -/
def ValidatesRight (m : Mem) (h : ℕ) : Prop :=
  ∃ n accepted, validateTable n m h = .ok accepted ∧ (accepted ≠ 0 ↔ byteSum m h (sdtLength m h) % 256 = 0)

variable {m : Mem} {a h n : ℕ} {c d : Checksum}

lemma byteSum_succ : byteSum m a (n + 1) = byteSum m a n + byteAt m (a + n) := by
  simp only [byteSum, List.range_succ, List.map_append, List.map_singleton, List.sum_append, List.sum_singleton]

lemma highBytes_succ : highBytes m a (n + 1) = highBytes m a n + if 128 ≤ byteAt m (a + n) then 1 else 0 := by
  simp only [highBytes, List.range_succ, List.countP_append, List.countP_singleton, decide_eq_true_eq]

lemma charSum_succ : charSum m a (n + 1) = charSum m a n + charAt m (a + n) := by
  simp only [charSum, List.range_succ, List.foldl_append, List.foldl_cons, List.foldl_nil]

lemma highBytes_le : highBytes m a n ≤ n := by
  have hle := List.countP_le_length (l := List.range n) (p := fun i => decide (128 ≤ byteAt m (a + i)))
  rwa [List.length_range] at hle

lemma byteSum_le : byteSum m a n ≤ 255 * n := by
  induction n with
  | zero => exact le_refl 0
  | succ n ih =>
    have hb := byteAt_lt (m := m) (a := a + n)
    rw [byteSum_succ]
    omega

lemma charAt_toNat : (charAt m a).toNat = byteAt m a + if 128 ≤ byteAt m a then 2 ^ 32 - 2 ^ 8 else 0 := by
  have hb := (m (u32 a)).isLt
  rw [charAt, BitVec.toNat_signExtend, BitVec.toNat_setWidth, BitVec.msb_eq_decide, byteAt, Nat.mod_eq_of_lt (by omega)]
  simp only [decide_eq_true_eq]

/-- A byte from 0x80 on counts 256 less. -/
lemma charSum_toNat : (charSum m a n).toNat = (byteSum m a n + (2 ^ 32 - 2 ^ 8) * highBytes m a n) % 2 ^ 32 := by
  induction n with
  | zero => rfl
  | succ n ih =>
    rw [charSum_succ, BitVec.toNat_add, ih, charAt_toNat, byteSum_succ, highBytes_succ, Nat.mod_add_mod]
    congr 1
    split_ifs <;> ring

lemma charSum_mod : (charSum m a n).toNat % 256 = byteSum m a n % 256 := by
  rw [charSum_toNat]
  omega

lemma charSum_eq_zero (hn : n < 256) : charSum m a n = 0 ↔ byteSum m a n = 256 * highBytes m a n := by
  have hsum := byteSum_le (m := m) (a := a) (n := n)
  have hhigh := highBytes_le (m := m) (a := a) (n := n)
  have h0 : BitVec.toNat (0 : BitVec 32) = 0 := rfl
  rw [← BitVec.toNat_inj, charSum_toNat, h0]
  omega

/-- What holds at every test. -/
def Summed (m : Mem) (h : ℕ) (c : Checksum) : Prop := c.i.toNat ≤ sdtLength m h ∧ c.total = charSum m h c.i.toNat

lemma validateBody_summed (hlen : sdtLength m h < 256) (hc : Summed m h c) (hd : validateBody m h c = .ok (some d)) :
    Summed m h d ∧ d.i.toNat = c.i.toNat + 1 := by
  rw [validateBody, ite_eq_iff] at hd
  rcases hd with ⟨hlt, hd⟩ | ⟨-, hd⟩
  case inr => cases hd
  cases hd
  have hi : (c.i + 1).toNat = c.i.toNat + 1 := by
    rw [UInt8.toNat_add]
    exact Nat.mod_eq_of_lt (by simp only [UInt8.toNat_one]; omega)
  refine ⟨⟨by rw [hi]; exact hlt, ?_⟩, hi⟩
  rw [hi, charSum_succ, ← hc.2]

lemma validateBody_leave (hc : validateBody m h c = .ok none) : sdtLength m h ≤ c.i.toNat := by
  by_contra hlt
  rw [validateBody, if_pos (Nat.lt_of_not_le hlt)] at hc
  cases hc

lemma validateTable_ok (hlen : sdtLength m h < 256) :
    ∃ n, validateTable n m h = .ok (if charSum m h (sdtLength m h) = 0 then 1 else 0) := by
  have hstep : ∀ c, Summed m h c → validateBody m h c = .ok none ∨
      ∃ d, validateBody m h c = .ok (some d) ∧ Summed m h d ∧ sdtLength m h - d.i.toNat < sdtLength m h - c.i.toNat := by
    intro c hc
    by_cases hlt : c.i.toNat < sdtLength m h
    · have hd : validateBody m h c = _ := if_pos hlt
      obtain ⟨hs, hi⟩ := validateBody_summed hlen hc hd
      exact Or.inr ⟨_, hd, hs, by omega⟩
    · exact Or.inl (if_neg hlt)
  obtain ⟨c, hc, ⟨hle, htotal⟩, hleave⟩ := loop_returns (n := sdtLength m h + 1) hstep
    (show Summed m h ⟨0, 0⟩ from ⟨Nat.zero_le _, rfl⟩) (Nat.lt_succ_of_le (Nat.sub_le _ _))
  have hi : c.i.toNat = sdtLength m h := by
    have hge := validateBody_leave hleave
    omega
  refine ⟨sdtLength m h + 1, ?_⟩
  rw [validateTable, hc, ok_bind, htotal, hi]
  rfl

/-- On a longer table `i` starts again at 0. -/
lemma validateTable_stuck (hlen : 256 ≤ sdtLength m h) (accepted : UInt8) : validateTable n m h ≠ .ok accepted := by
  intro hok
  obtain ⟨c, hc, -⟩ := bind_eq_ok.mp hok
  obtain ⟨-, hleave⟩ := loop_reaches hc
  have hi := c.i.toNat_lt
  have hge := validateBody_leave hleave
  omega

lemma validateTable_unique (hlen : sdtLength m h < 256) {accepted : UInt8} (hok : validateTable n m h = .ok accepted) :
    accepted = if charSum m h (sdtLength m h) = 0 then 1 else 0 := by
  obtain ⟨c, hc, hacc⟩ := bind_eq_ok.mp hok
  obtain ⟨hreach, hleave⟩ := loop_reaches hc
  obtain ⟨hle, htotal⟩ := hreach.invariant (I := Summed m h) (fun c d hs hd => (validateBody_summed hlen hs hd).1)
    ⟨Nat.zero_le _, rfl⟩
  have hi : c.i.toNat = sdtLength m h := by
    have hge := validateBody_leave hleave
    omega
  rw [htotal, hi] at hacc
  exact (Except.ok.inj hacc).symm

lemma accepted_iff (hlen : sdtLength m h < 256) : ((if charSum m h (sdtLength m h) = 0 then (1 : UInt8) else 0) ≠ 0 ↔
    byteSum m h (sdtLength m h) % 256 = 0) ↔
      (byteSum m h (sdtLength m h) % 256 = 0 → byteSum m h (sdtLength m h) = 256 * highBytes m h (sdtLength m h)) := by
  have hzero := charSum_eq_zero (m := m) (a := h) hlen
  rw [← hzero]
  by_cases h0 : charSum m h (sdtLength m h) = 0
  · have hsum := hzero.mp h0
    have hmod : byteSum m h (sdtLength m h) % 256 = 0 := by omega
    simp [h0, hmod]
  · simp only [h0, if_false, ne_eq, not_true_eq_false, false_iff, imp_false]

lemma ValidatesRight.length_lt (hright : ValidatesRight m h) : sdtLength m h < 256 := by
  obtain ⟨n, accepted, hok, -⟩ := hright
  by_contra hlen
  exact validateTable_stuck (by omega) accepted hok

lemma ValidatesRight.sum (hright : ValidatesRight m h) (hmod : byteSum m h (sdtLength m h) % 256 = 0) :
    byteSum m h (sdtLength m h) = 256 * highBytes m h (sdtLength m h) := by
  have hlen := hright.length_lt
  obtain ⟨n, accepted, hok, hacc⟩ := hright
  rw [validateTable_unique hlen hok] at hacc
  exact (accepted_iff hlen).mp hacc hmod

/-- The checksum is right on tables of at most 255 bytes, unless their sum is a multiple of 256 that the
negative bytes do not bring down to 0. -/
theorem validateTable_iff (m : Mem) (h : ℕ) : ValidatesRight m h ↔ sdtLength m h < 256 ∧
    (byteSum m h (sdtLength m h) % 256 = 0 → byteSum m h (sdtLength m h) = 256 * highBytes m h (sdtLength m h)) := by
  constructor
  · intro hright
    exact ⟨hright.length_lt, hright.sum⟩
  · rintro ⟨hlen, hsum⟩
    obtain ⟨n, hn⟩ := validateTable_ok hlen
    exact ⟨n, _, hn, (accepted_iff hlen).mpr hsum⟩

/-- A header without a table behind it, with its checksum. -/
def bareTable : Mem := fun a =>
  [0x53, 0x53, 0x44, 0x54, 36, 0, 0, 0, 1, 0x9D].getD a 0

theorem validateTable_wrong : ¬ ValidatesRight bareTable 0 := by
  intro hright
  exact absurd (hright.sum (by decide)) (by decide)

end WordOS.Acpi
