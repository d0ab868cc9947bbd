import WordOS.Lib.Bytes
import WordOS.Machine

/-! Reads that keep to a part of the memory. -/

namespace WordOS.Memory

open Machine Lib.Bytes

def byteAt (m : Mem) (a : ℕ) : ℕ := (m (u32 a)).toNat

/-- The 32-bit word at `a`. -/
def wordAt (m : Mem) (a : ℕ) : ℕ := read32 (fun x => m (u32 x)) a

/-- The `n` bytes from `a` on are `inside`. -/
def Within (inside : ℕ → Prop) (a n : ℕ) : Prop := ∀ i < n, inside (u32 (a + i))

section

variable (inside : ℕ → Prop) [DecidablePred inside] (m : Mem)

instance (a n : ℕ) : Decidable (Within inside a n) := inferInstanceAs (Decidable (∀ i < n, inside (u32 (a + i))))

/-! A read that is not all `inside` faults. -/

def loadByte (a : ℕ) : Exec ℕ := if inside (u32 a) then .ok (byteAt m a) else .error .fault

def loadWord (a : ℕ) : Exec ℕ := if Within inside a 4 then .ok (wordAt m a) else .error .fault

def loadBytes (a : ℕ) : (n : ℕ) → Exec (List ℕ)
  | 0 => .ok []
  | n + 1 => do
    let byte ← loadByte inside m a
    let rest ← loadBytes (a + 1) n
    return byte :: rest

end

variable {inside : ℕ → Prop} [DecidablePred inside] {m : Mem} {a n v : ℕ}

lemma byteAt_lt : byteAt m a < 256 := (m (u32 a)).isLt

lemma wordAt_lt : wordAt m a < 2 ^ 32 := read32_lt

lemma wordAt_eq (h : a + 4 ≤ 2 ^ 32) : wordAt m a = read32 m a := by
  have hbyte : ∀ i < 4, u32 (a + i) = a + i := fun i hi => u32_eq (by omega)
  exact read32_congr fun i hi => congrArg m (hbyte i hi)

lemma loadByte_ok (h : inside (u32 a)) : loadByte inside m a = .ok (byteAt m a) := if_pos h

lemma loadByte_fault (h : ¬ inside (u32 a)) : loadByte inside m a = .error .fault := if_neg h

lemma loadWord_ok (h : Within inside a 4) : loadWord inside m a = .ok (wordAt m a) := if_pos h

lemma loadWord_fault (h : ¬ Within inside a 4) : loadWord inside m a = .error .fault := if_neg h

lemma loadByte_eq_ok : loadByte inside m a = .ok v ↔ inside (u32 a) ∧ v = byteAt m a := by
  by_cases h : inside (u32 a)
  · rw [loadByte_ok h, Except.ok.injEq]
    exact ⟨fun hv => ⟨h, hv.symm⟩, fun hv => hv.2.symm⟩
  · rw [loadByte_fault h]
    exact iff_of_false (fun hv => by cases hv) fun hv => h hv.1

lemma loadWord_eq_ok : loadWord inside m a = .ok v ↔ Within inside a 4 ∧ v = wordAt m a := by
  by_cases h : Within inside a 4
  · rw [loadWord_ok h, Except.ok.injEq]
    exact ⟨fun hv => ⟨h, hv.symm⟩, fun hv => hv.2.symm⟩
  · rw [loadWord_fault h]
    exact iff_of_false (fun hv => by cases hv) fun hv => h hv.1

omit [DecidablePred inside] in
lemma within_succ : Within inside a (n + 1) ↔ inside (u32 a) ∧ Within inside (a + 1) n := by
  constructor
  · intro h
    refine ⟨h 0 (Nat.succ_pos n), fun i hi => ?_⟩
    rw [show a + 1 + i = a + (i + 1) by omega]
    exact h (i + 1) (by omega)
  · rintro ⟨h0, h⟩ i hi
    cases i with
    | zero => exact h0
    | succ i =>
      rw [show a + (i + 1) = a + 1 + i by omega]
      exact h i (by omega)

variable (inside m) in
lemma loadBytes_cases (a n : ℕ) : (∃ bytes, loadBytes inside m a n = .ok bytes ∧ Within inside a n) ∨
    loadBytes inside m a n = .error .fault ∧ ¬ Within inside a n := by
  induction n generalizing a with
  | zero => exact Or.inl ⟨[], rfl, fun i hi => absurd hi (Nat.not_lt_zero i)⟩
  | succ n ih =>
    rw [loadBytes, within_succ]
    by_cases h0 : inside (u32 a)
    · rw [loadByte_ok h0, ok_bind]
      rcases ih (a + 1) with ⟨bytes, hb, hc⟩ | ⟨hb, hc⟩
      · rw [hb]
        exact Or.inl ⟨_, rfl, h0, hc⟩
      · rw [hb]
        exact Or.inr ⟨rfl, fun h => hc h.2⟩
    · rw [loadByte_fault h0]
      exact Or.inr ⟨rfl, fun h => h0 h.1⟩

end WordOS.Memory
