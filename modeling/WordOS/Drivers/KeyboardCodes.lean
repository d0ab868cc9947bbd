import WordOS.Drivers.Keyboard

/-! The bytes of a scancode and the tables they index. -/

namespace WordOS.Drivers

/-- `key_codes` and `bytes_in` after the loop of `handle_keychange`. -/
def keyCodes (e : KeyInput) : (ℕ → ℕ) × ℕ := readCodes e 4 0 fun i => if i < 4 then 0 else e.heapByte % 256

def bytesIn (e : KeyInput) : ℕ := (keyCodes e).2

def lookupIndex (e : KeyInput) : ℕ := (keyCodes e).1 (bytesIn e) % 0x80

/-- Where `key_codes` is written by the loop, and read after it. -/
def codeIndices (e : KeyInput) : List ℕ := List.range (min (bytesIn e + 1) 4) ++ [bytesIn e]

structure InRange (e : KeyInput) : Prop where
  codes : ∀ i ∈ codeIndices e, i < 4
  lookup : lookupIndex e < keyLookup.length

/-- The first byte of the `k`th interrupt, when all read one stream; `around` is what lies behind the tables then. -/
def firstByte (port : ℕ → UInt8) (around : ℕ → ℕ × (ℕ → ℕ)) : (k : ℕ) → ℕ
  | 0 => 0
  | k + 1 =>
    let start := firstByte port around k
    start + min (bytesIn ⟨fun i => (port (start + i)).toNat, (around k).1, (around k).2⟩ + 1) 4

def streamInput (port : ℕ → UInt8) (around : ℕ → ℕ × (ℕ → ℕ)) (k : ℕ) : KeyInput :=
  ⟨fun i => (port (firstByte port around k + i)).toNat, (around k).1, (around k).2⟩

lemma readCodes_spec (e : KeyInput) (n b : ℕ) (codes : ℕ → ℕ) : ∃ j ≤ n, (readCodes e n b codes).2 = b + j ∧
    (∀ t < j, e.inportb (b + t) % 256 = 0xE0) ∧
    (j < n → e.inportb (b + j) % 256 ≠ 0xE0 ∧ (readCodes e n b codes).1 (b + j) = e.inportb (b + j) % 256) := by
  induction n generalizing b codes with
  | zero => exact ⟨0, le_refl 0, rfl, fun t ht => absurd ht (Nat.not_lt_zero t), fun h => absurd h (Nat.lt_irrefl 0)⟩
  | succ n ih =>
    by_cases hcode : e.inportb b % 256 = 0xE0
    · have hnext : readCodes e (n + 1) b codes = readCodes e n (b + 1) (Function.update codes b (e.inportb b % 256)) := by
        simp only [readCodes, hcode, ne_eq, not_true_eq_false, if_false]
      obtain ⟨j, hj, hstop, hpre, hlast⟩ := ih (b + 1) (Function.update codes b (e.inportb b % 256))
      have hshift : ∀ t, b + 1 + t = b + (t + 1) := fun t => by omega
      simp only [hshift] at hstop hpre hlast
      refine ⟨j + 1, by omega, hnext ▸ hstop, fun t ht => ?_, fun h => hnext ▸ hlast (by omega)⟩
      cases t with
      | zero => exact hcode
      | succ t => exact hpre t (by omega)
    · have hstop : readCodes e (n + 1) b codes = (Function.update codes b (e.inportb b % 256), b) := by
        simp only [readCodes, hcode, ne_eq, not_false_eq_true, if_true]
      refine ⟨0, Nat.zero_le _, by rw [hstop]; rfl, fun t ht => absurd ht (Nat.not_lt_zero t), fun _ => ⟨hcode, ?_⟩⟩
      simp only [hstop, Nat.add_zero, Function.update_self]

lemma bytesIn_spec (e : KeyInput) : bytesIn e ≤ 4 ∧ (∀ t < bytesIn e, e.inportb t % 256 = 0xE0) ∧
    (bytesIn e < 4 → e.inportb (bytesIn e) % 256 ≠ 0xE0 ∧ lookupIndex e = e.inportb (bytesIn e) % 256 % 0x80) := by
  obtain ⟨j, hj, hstop, hpre, hlast⟩ := readCodes_spec e 4 0 fun i => if i < 4 then 0 else e.heapByte % 256
  simp only [Nat.zero_add] at hstop hpre hlast
  have hb : bytesIn e = j := hstop
  rw [lookupIndex, hb]
  exact ⟨hj, hpre, fun h => ⟨(hlast h).1, congrArg (· % 0x80) (hlast h).2⟩⟩

lemma inRange_iff (e : KeyInput) : InRange e ↔ bytesIn e < 4 ∧ e.inportb (bytesIn e) % 256 % 0x80 < 89 := by
  obtain ⟨-, -, hcode⟩ := bytesIn_spec e
  constructor
  · rintro ⟨hcodes, hlookup⟩
    have hlt : bytesIn e < 4 := hcodes _ (List.mem_append_right _ (List.mem_singleton_self _))
    exact ⟨hlt, (hcode hlt).2 ▸ hlookup⟩
  · rintro ⟨hlt, hlookup⟩
    refine ⟨fun i hi => ?_, ?_⟩
    · simp only [codeIndices, List.mem_append, List.mem_range, List.mem_singleton] at hi
      omega
    · rw [(hcode hlt).2]
      exact hlookup

section Stream

variable {port : ℕ → UInt8} {around : ℕ → ℕ × (ℕ → ℕ)} {k : ℕ}

lemma firstByte_succ : firstByte port around (k + 1) = firstByte port around k + min (bytesIn (streamInput port around k) + 1) 4 :=
  rfl

lemma streamInput_byte (i : ℕ) : (streamInput port around k).inportb i % 256 = (port (firstByte port around k + i)).toNat :=
  Nat.mod_eq_of_lt (port _).toNat_lt

lemma exists_interrupt (port : ℕ → UInt8) (around : ℕ → ℕ × (ℕ → ℕ)) (i : ℕ) :
    ∃ k, firstByte port around k ≤ i ∧ i < firstByte port around (k + 1) := by
  induction i with
  | zero => exact ⟨0, le_refl 0, by rw [firstByte_succ]; omega⟩
  | succ i ih =>
    obtain ⟨k, hle, hlt⟩ := ih
    by_cases hnext : i + 1 < firstByte port around (k + 1)
    · exact ⟨k, by omega, hnext⟩
    · exact ⟨k + 1, by omega, by rw [firstByte_succ (k := k + 1)]; omega⟩

/-- The tables are kept to on a stream of keys of the table, each with at most three prefixes. -/
theorem stream_inRange_iff (port : ℕ → UInt8) (around : ℕ → ℕ × (ℕ → ℕ)) :
    (∀ k, InRange (streamInput port around k)) ↔
      (∀ i, port i ≠ 0xE0 → (port i).toNat % 0x80 < 89) ∧ ∀ i, ∃ j < 4, port (i + j) ≠ 0xE0 := by
  have hext : ∀ i, (port i).toNat = 0xE0 ↔ port i = 0xE0 := fun i => UInt8.toNat_inj (b := 0xE0)
  constructor
  · intro hall
    -- the interrupt that reads byte `i` stops at its last byte
    have hread : ∀ i, ∃ j < 4, port (i + j) ≠ 0xE0 ∧ (j = 0 ∨ port i = 0xE0) ∧ (port (i + j)).toNat % 0x80 < 89 := by
      intro i
      obtain ⟨k, hle, hlt⟩ := exists_interrupt port around i
      obtain ⟨hfour, hlookup⟩ := (inRange_iff _).mp (hall k)
      obtain ⟨-, hpre, hcode⟩ := bytesIn_spec (streamInput port around k)
      obtain ⟨hlast, -⟩ := hcode hfour
      rw [firstByte_succ] at hlt
      simp only [streamInput_byte] at hlookup hpre hlast
      have hend : i + (firstByte port around k + bytesIn (streamInput port around k) - i) =
          firstByte port around k + bytesIn (streamInput port around k) := by omega
      refine ⟨firstByte port around k + bytesIn (streamInput port around k) - i, by omega, ?_, ?_, ?_⟩
      · rw [hend]
        exact fun h => hlast ((hext _).mpr h)
      · rcases Nat.eq_zero_or_pos (firstByte port around k + bytesIn (streamInput port around k) - i) with h0 | hpos
        · exact Or.inl h0
        · right
          have hp := hpre (i - firstByte port around k) (by omega)
          rw [Nat.add_sub_cancel' hle] at hp
          exact (hext i).mp hp
      · rw [hend]
        exact hlookup
    refine ⟨fun i hi => ?_, fun i => ?_⟩
    · obtain ⟨j, -, -, hj | hj, hlookup⟩ := hread i
      · rw [hj] at hlookup
        exact hlookup
      · exact absurd hj hi
    · obtain ⟨j, hj, hne, -⟩ := hread i
      exact ⟨j, hj, hne⟩
  · rintro ⟨hkeys, hruns⟩ k
    obtain ⟨hle, hpre, hcode⟩ := bytesIn_spec (streamInput port around k)
    obtain ⟨j, hj, hne⟩ := hruns (firstByte port around k)
    have hfour : bytesIn (streamInput port around k) < 4 := by
      by_contra hge
      have hp := hpre j (by omega)
      rw [streamInput_byte] at hp
      exact hne ((hext _).mp hp)
    obtain ⟨hlast, -⟩ := hcode hfour
    rw [streamInput_byte] at hlast
    apply (inRange_iff _).mpr
    refine ⟨hfour, ?_⟩
    rw [streamInput_byte]
    exact hkeys _ fun h => hlast ((hext _).mpr h)

/-- The left command key, `E0 5B` and `E0 DB`: its code is behind the table. -/
theorem stream_not_inRange :
    ¬ ∀ k, InRange (streamInput (fun i => [0xE0, 0x5B, 0xE0, 0xDB].getD (i % 4) 0) (fun _ => (0, fun _ => 0)) k) := by
  intro h
  have hlookup := (h 0).lookup
  exact absurd hlookup (by decide)

end Stream

end WordOS.Drivers
