import Mathlib.Data.Nat.Basic
import Mathlib.Tactic.IntervalCases

/-! Byte memories with little-endian words of 16 and 32 bits. -/

namespace WordOS.Lib.Bytes

abbrev Mem := ℕ → BitVec 8

def read32 (m : Mem) (a : ℕ) : ℕ :=
  (m a).toNat + 2 ^ 8 * (m (a + 1)).toNat + 2 ^ 16 * (m (a + 2)).toNat + 2 ^ 24 * (m (a + 3)).toNat

def write32 (m : Mem) (a v : ℕ) : Mem :=
  fun x => if a ≤ x ∧ x < a + 4 then BitVec.ofNat 8 (v / 2 ^ (8 * (x - a))) else m x

def read16 (m : Mem) (a : ℕ) : ℕ := (m a).toNat + 2 ^ 8 * (m (a + 1)).toNat

def write16 (m : Mem) (a v : ℕ) : Mem :=
  fun x => if a ≤ x ∧ x < a + 2 then BitVec.ofNat 8 (v / 2 ^ (8 * (x - a))) else m x

/-- A copy of bytes that lie elsewhere. -/
def copyIn (m : Mem) (dest : ℕ) (bytes : ℕ → BitVec 8) (len : ℕ) : Mem :=
  fun x => if dest ≤ x ∧ x < dest + len then bytes (x - dest) else m x

def memcpy (m : Mem) (dest src : ℕ) : ℕ → Mem
  | 0 => m
  | len + 1 => memcpy (Function.update m dest (m src)) (dest + 1) (src + 1) len

def memset (m : Mem) (dest : ℕ) (c : BitVec 8) : ℕ → Mem
  | 0 => m
  | n + 1 => memset (Function.update m dest c) (dest + 1) c n

variable {m m' : Mem} {a b v : ℕ}

lemma read32_lt : read32 m a < 2 ^ 32 := by
  have h := fun x => (m x).isLt
  have h0 := h a
  have h1 := h (a + 1)
  have h2 := h (a + 2)
  have h3 := h (a + 3)
  rw [read32]
  omega

lemma read32_moved (h : ∀ i < 4, m' (b + i) = m (a + i)) : read32 m' b = read32 m a := by
  have h0 := h 0 (by decide)
  rw [read32, read32, show m' b = m a from h0, h 1 (by decide), h 2 (by decide), h 3 (by decide)]

lemma read32_congr (h : ∀ i < 4, m' (a + i) = m (a + i)) : read32 m' a = read32 m a := read32_moved h

lemma write32_of_outside {x : ℕ} (h : x < a ∨ a + 4 ≤ x) : write32 m a v x = m x :=
  if_neg (by omega)

lemma read32_write32_self : read32 (write32 m a v) a = v % 2 ^ 32 := by
  have hb : ∀ i < 4, (write32 m a v (a + i)).toNat = v / 2 ^ (8 * i) % 2 ^ 8 := by
    intro i hi
    rw [write32, if_pos (by omega), Nat.add_sub_cancel_left, BitVec.toNat_ofNat]
  have h0 := hb 0 (by decide)
  rw [read32, show (write32 m a v a).toNat = _ from h0, hb 1 (by decide), hb 2 (by decide), hb 3 (by decide)]
  omega

lemma read32_write32_of_disjoint (h : a + 4 ≤ b ∨ b + 4 ≤ a) : read32 (write32 m a v) b = read32 m b :=
  read32_congr fun i hi => write32_of_outside (by omega)

lemma read16_lt : read16 m a < 2 ^ 16 := by
  have h := fun x => (m x).isLt
  have h0 := h a
  have h1 := h (a + 1)
  rw [read16]
  omega

lemma read16_moved (h : ∀ i < 2, m' (b + i) = m (a + i)) : read16 m' b = read16 m a := by
  have h0 := h 0 (by decide)
  rw [read16, read16, show m' b = m a from h0, h 1 (by decide)]

lemma read16_congr (h : ∀ i < 2, m' (a + i) = m (a + i)) : read16 m' a = read16 m a := read16_moved h

lemma write16_of_outside {x : ℕ} (h : x < a ∨ a + 2 ≤ x) : write16 m a v x = m x :=
  if_neg (by omega)

lemma read16_write16_self : read16 (write16 m a v) a = v % 2 ^ 16 := by
  have hb : ∀ i < 2, (write16 m a v (a + i)).toNat = v / 2 ^ (8 * i) % 2 ^ 8 := by
    intro i hi
    rw [write16, if_pos (by omega), Nat.add_sub_cancel_left, BitVec.toNat_ofNat]
  have h0 := hb 0 (by decide)
  rw [read16, show (write16 m a v a).toNat = _ from h0, hb 1 (by decide)]
  omega

lemma copyIn_of_outside {bytes : ℕ → BitVec 8} {len x : ℕ} (h : x < a ∨ a + len ≤ x) : copyIn m a bytes len x = m x :=
  if_neg (by omega)

lemma copyIn_inside {bytes : ℕ → BitVec 8} {len i : ℕ} (h : i < len) : copyIn m a bytes len (a + i) = bytes i := by
  rw [copyIn, if_pos (by omega), Nat.add_sub_cancel_left]

lemma memcpy_of_outside {dest src len x : ℕ} (h : x < dest ∨ dest + len ≤ x) : memcpy m dest src len x = m x := by
  induction len generalizing m dest src with
  | zero => rfl
  | succ len ih =>
    rw [memcpy, ih (by omega)]
    exact Function.update_of_ne (by omega) ..

lemma memcpy_copied {dest src len i : ℕ} (h : dest ≤ src ∨ src + len ≤ dest) (hi : i < len) :
    memcpy m dest src len (dest + i) = m (src + i) := by
  induction len generalizing m dest src i with
  | zero => omega
  | succ len ih =>
    rw [memcpy]
    cases i with
    | zero =>
      rw [Nat.add_zero, memcpy_of_outside (by omega)]
      exact Function.update_self ..
    | succ i =>
      rw [show dest + (i + 1) = dest + 1 + i by omega, ih (by omega) (by omega),
        show src + 1 + i = src + (i + 1) by omega]
      exact Function.update_of_ne (by omega) ..

/-- A copy onto the later part of its own source repeats the bytes that lie before it. -/
lemma memcpy_repeats {src d len i : ℕ} (hd : 0 < d) (hi : i < len) :
    memcpy m (src + d) src len (src + d + i) = m (src + i % d) := by
  induction len generalizing m src i with
  | zero => omega
  | succ len ih =>
    rw [memcpy]
    cases i with
    | zero =>
      rw [Nat.add_zero, memcpy_of_outside (by omega), Nat.zero_mod]
      exact Function.update_self ..
    | succ i =>
      have hlt := Nat.mod_lt i hd
      rw [show src + d + (i + 1) = src + 1 + d + i by omega, show src + d + 1 = src + 1 + d by omega, ih (by omega)]
      by_cases hlast : i % d = d - 1
      · have hnext : (i + 1) % d = 0 := by
          rw [← Nat.mod_add_mod, hlast, Nat.sub_add_cancel hd, Nat.mod_self]
        rw [hlast, hnext, show src + 1 + (d - 1) = src + d by omega]
        exact Function.update_self ..
      · have hnext : (i + 1) % d = i % d + 1 := by
          rw [← Nat.mod_add_mod, Nat.mod_eq_of_lt (by omega)]
        rw [hnext, show src + 1 + i % d = src + (i % d + 1) by omega]
        exact Function.update_of_ne (by omega) ..

lemma memset_of_outside {dest n x : ℕ} {c : BitVec 8} (h : x < dest ∨ dest + n ≤ x) : memset m dest c n x = m x := by
  induction n generalizing m dest with
  | zero => rfl
  | succ n ih =>
    rw [memset, ih (by omega)]
    exact Function.update_of_ne (by omega) ..

lemma memset_inside {dest n x : ℕ} {c : BitVec 8} (h : dest ≤ x) (hx : x < dest + n) : memset m dest c n x = c := by
  induction n generalizing m dest with
  | zero => omega
  | succ n ih =>
    rw [memset]
    by_cases hd : x = dest
    · subst hd
      rw [memset_of_outside (by omega)]
      exact Function.update_self ..
    · exact ih (by omega) (by omega)

end WordOS.Lib.Bytes
