import Mathlib.Data.BitVec

/-! Little-endian words in a byte memory with addresses of 32 bits, and stacks that grow down in it. -/

namespace WordOS.Lib.Words

abbrev Word := BitVec 32

abbrev Mem := Word → BitVec 8

def read32 (m : Mem) (a : Word) : Word := m (a + 3) ++ m (a + 2) ++ m (a + 1) ++ m a

def write32 (m : Mem) (a v : Word) : Mem := fun x =>
  if x = a then v.extractLsb' 0 8
  else if x = a + 1 then v.extractLsb' 8 8
  else if x = a + 2 then v.extractLsb' 16 8
  else if x = a + 3 then v.extractLsb' 24 8
  else m x

/-- The words at `a` and `b` have no byte in common. -/
def Apart (a b : Word) : Prop := 4 ≤ b - a ∧ 4 ≤ a - b

/-- The `n` bytes below `a` and the `k` bytes from `b` on have none in common. -/
def Clear (a : Word) (n : ℕ) (b : Word) (k : ℕ) : Prop := n + k ≤ (a - b - 1).toNat + 1

instance (a : Word) (n : ℕ) (b : Word) (k : ℕ) : Decidable (Clear a n b k) := inferInstanceAs (Decidable (_ ≤ _))

/-- The words `ws` on a stack with its top at `a`, the last one lowest. -/
def pushes (m : Mem) (a : Word) : List Word → Mem
  | [] => m
  | w :: ws => pushes (write32 m (a - 4) w) (a - 4) ws

variable {m : Mem} {a b v : Word} {ws : List Word} {n k : ℕ}

lemma extract_append :
    v.extractLsb' 24 8 ++ v.extractLsb' 16 8 ++ v.extractLsb' 8 8 ++ v.extractLsb' 0 8 = v := by
  rw [BitVec.extractLsb'_append_extractLsb'_eq_extractLsb' (by rfl),
    BitVec.extractLsb'_append_extractLsb'_eq_extractLsb' (by rfl),
    BitVec.extractLsb'_append_extractLsb'_eq_extractLsb' (by rfl)]
  exact BitVec.extractLsb'_eq_self

lemma read32_write32_self : read32 (write32 m a v) a = v := by
  have h1 : a + 1 ≠ a := by bv_omega
  have h2 : a + 2 ≠ a ∧ a + 2 ≠ a + 1 := by constructor <;> bv_omega
  have h3 : a + 3 ≠ a ∧ a + 3 ≠ a + 1 ∧ a + 3 ≠ a + 2 := by refine ⟨?_, ?_, ?_⟩ <;> bv_omega
  simp only [read32, write32, if_true, h1, h2, h3, if_false]
  exact extract_append

lemma write32_of_ne {x : Word} (h : 4 ≤ x - a) : write32 m a v x = m x := by
  have h0 : x ≠ a := by bv_omega
  have h1 : x ≠ a + 1 := by bv_omega
  have h2 : x ≠ a + 2 := by bv_omega
  have h3 : x ≠ a + 3 := by bv_omega
  simp only [write32, if_neg h0, if_neg h1, if_neg h2, if_neg h3]

lemma read32_write32 (h : Apart a b) : read32 (write32 m a v) b = read32 m b := by
  obtain ⟨hab, hba⟩ := h
  have h1 : 4 ≤ b + 1 - a := by bv_omega
  have h2 : 4 ≤ b + 2 - a := by bv_omega
  have h3 : 4 ≤ b + 3 - a := by bv_omega
  simp only [read32, write32_of_ne hab, write32_of_ne h1, write32_of_ne h2, write32_of_ne h3]

lemma extract_above {n i : ℕ} (u : BitVec n) (z : BitVec 8) : (u ++ z).extractLsb' (i + 8) 8 = u.extractLsb' i 8 := by
  rw [BitVec.extractLsb'_append_eq_of_le (by omega), Nat.add_sub_cancel]

lemma extract_bytes (w x y z : BitVec 8) :
    (w ++ x ++ y ++ z : Word).extractLsb' 0 8 = z ∧ (w ++ x ++ y ++ z : Word).extractLsb' 8 8 = y ∧
      (w ++ x ++ y ++ z : Word).extractLsb' 16 8 = x ∧ (w ++ x ++ y ++ z : Word).extractLsb' 24 8 = w := by
  have hyz := extract_above (i := 0) (w ++ x ++ y) z
  have hxz := extract_above (i := 8) (w ++ x ++ y) z
  have hwz := extract_above (i := 16) (w ++ x ++ y) z
  refine ⟨BitVec.extractLsb'_append_eq_right, ?_, ?_, ?_⟩
  · exact hyz.trans BitVec.extractLsb'_append_eq_right
  · exact hxz.trans ((extract_above (i := 0) (w ++ x) y).trans BitVec.extractLsb'_append_eq_right)
  · exact hwz.trans ((extract_above (i := 8) (w ++ x) y).trans BitVec.extractLsb'_append_eq_left)

lemma write32_read32 : write32 m a (read32 m a) = m := by
  obtain ⟨hb0, hb1, hb2, hb3⟩ := extract_bytes (m (a + 3)) (m (a + 2)) (m (a + 1)) (m a)
  funext x
  simp only [write32, read32, hb0, hb1, hb2, hb3]
  split_ifs with h0 h1 h2 h3
  · rw [h0]
  · rw [h1]
  · rw [h2]
  · rw [h3]
  · rfl

lemma pushes_concat :
    pushes m a (ws ++ [v]) = write32 (pushes m a ws) (a - BitVec.ofNat 32 (4 * ws.length) - 4) v := by
  induction ws generalizing m a with
  | nil => simp [pushes]
  | cons w ws ih =>
    have haddr : a - BitVec.ofNat 32 (4 * (w :: ws).length) - 4 = a - 4 - BitVec.ofNat 32 (4 * ws.length) - 4 := by
      rw [List.length_cons]
      bv_omega
    rw [haddr]
    exact ih

lemma read32_pushes_of_clear (h : Clear a (4 * ws.length) b 4) : read32 (pushes m a ws) b = read32 m b := by
  induction ws generalizing m a with
  | nil => rfl
  | cons w ws ih =>
    simp only [Clear, List.length_cons] at h
    have hrest : Clear (a - 4) (4 * ws.length) b 4 := by
      unfold Clear
      bv_omega
    have hword : Apart (a - 4) b := by constructor <;> bv_omega
    rw [pushes, ih hrest, read32_write32 hword]

lemma read32_pushes (hfit : 4 * ws.length < 2 ^ 32) {i : ℕ} (hi : i < ws.length) :
    read32 (pushes m a ws) (a - BitVec.ofNat 32 (4 * (i + 1))) = ws[i] := by
  induction ws generalizing m a i with
  | nil => simp at hi
  | cons w ws ih =>
    simp only [List.length_cons] at hi hfit
    cases i with
    | zero =>
      have hclear : Clear (a - 4) (4 * ws.length) (a - 4) 4 := by
        unfold Clear
        bv_omega
      rw [pushes]
      exact (read32_pushes_of_clear hclear).trans read32_write32_self
    | succ i =>
      have haddr : a - BitVec.ofNat 32 (4 * (i + 1 + 1)) = a - 4 - BitVec.ofNat 32 (4 * (i + 1)) := by bv_omega
      rw [pushes, haddr, ih (by omega) (by omega)]
      rfl

end WordOS.Lib.Words
