import Mathlib.Logic.Function.Basic
import Mathlib.Tactic

/-! A ring of `n` slots that is written without a look at the reader: the newest values win, and what is
read comes in the order it was written in. -/

namespace WordOS.Lib.Rings

/-- `pos` is the slot written last, `tail` the slot read last. -/
structure RingBuffer (α : Type*) where
  slots : ℕ → α
  pos : ℕ
  tail : ℕ

variable {α : Type*} (n : ℕ)

def RingBuffer.push (r : RingBuffer α) (a : α) : RingBuffer α :=
  { r with slots := Function.update r.slots ((r.pos + 1) % n) a, pos := (r.pos + 1) % n }

def RingBuffer.front (r : RingBuffer α) : α := r.slots ((r.tail + 1) % n)

def RingBuffer.advance (r : RingBuffer α) : RingBuffer α := { r with tail := (r.tail + 1) % n }

/-- Of the values `f 0`, .., `f (p - 1)` written, the last `n` are in their slots; `c` reads were made. -/
structure Tracks (f : ℕ → α) (p c : ℕ) (r : RingBuffer α) : Prop where
  pos : r.pos = p % n
  tail : r.tail = c % n
  le : c ≤ p
  slot : ∀ i < p, p ≤ i + n → r.slots ((i + 1) % n) = f i

def nextIndex (p c : ℕ) : ℕ := c + n * ((p - c - 1) / n)

variable {n} {f g : ℕ → α} {p q c i : ℕ} {r : RingBuffer α} {a : α}

lemma nextIndex_lt (h : c < p) : nextIndex n p c < p := by
  have := Nat.mul_div_le (p - c - 1) n
  rw [nextIndex]
  omega

lemma nextIndex_mono (h : p ≤ q) : nextIndex n p c ≤ nextIndex n q c := by
  apply Nat.add_le_add_left
  apply Nat.mul_le_mul_left
  exact Nat.div_le_div_right (by omega)

lemma nextIndex_eq (h : p ≤ c + n) (hlt : c < p) : nextIndex n p c = c := by
  rw [nextIndex, Nat.div_eq_of_lt (by omega), Nat.mul_zero, Nat.add_zero]

lemma nextIndex_succ (hlt : c < p) (hne : (c + 1) % n ≠ p % n) : nextIndex n p (c + 1) = nextIndex n p c + 1 := by
  have hd : ¬ n ∣ p - (c + 1) := fun hd => hne ((Nat.modEq_iff_dvd' hlt).mpr hd)
  have hp : p - (c + 1) ≠ 0 := by
    intro h0
    rw [h0] at hd
    exact hd (dvd_zero n)
  have hdiv : (p - (c + 1) - 1) / n = (p - c - 1) / n := by
    have := Nat.succ_div_of_not_dvd (a := p - (c + 1) - 1) (b := n) (by rwa [Nat.sub_add_cancel (by omega)])
    rw [Nat.sub_add_cancel (by omega)] at this
    rw [← this]
    congr 1
  rw [nextIndex, nextIndex, hdiv]
  omega

lemma nextIndex_caught (hle : c ≤ p) (he : c % n = p % n) : nextIndex n (p + 1) c = p := by
  have hd : n ∣ p - c := (Nat.modEq_iff_dvd' hle).mp he
  have hs : p + 1 - c - 1 = p - c := by omega
  rw [nextIndex, hs, Nat.mul_div_cancel' hd]
  omega

namespace Tracks

lemma congr (h : Tracks n f p c r) (hfg : ∀ i < p, f i = g i) : Tracks n g p c r :=
  ⟨h.pos, h.tail, h.le, fun i hi hp => (h.slot i hi hp).trans (hfg i hi)⟩

lemma push (h : Tracks n f p c r) (ha : f p = a) : Tracks n f (p + 1) c (r.push n a) := by
  have hpos : (r.pos + 1) % n = (p + 1) % n := by rw [h.pos, Nat.mod_add_mod]
  refine ⟨hpos, h.tail, h.le.trans (Nat.le_succ p), fun i hi hp => ?_⟩
  rw [RingBuffer.push, hpos]
  rcases Nat.lt_succ_iff_lt_or_eq.mp hi with hlt | rfl
  · have hne : (i + 1) % n ≠ (p + 1) % n := by
      intro he
      have hd : n ∣ p + 1 - (i + 1) := (Nat.modEq_iff_dvd' (by omega)).mp he
      exact Nat.not_dvd_of_pos_of_lt (by omega) (by omega) hd
    exact (Function.update_of_ne hne ..).trans (h.slot i hlt (by omega))
  · exact (Function.update_self ..).trans ha.symm

lemma front (h : Tracks n f p c r) (hn : 0 < n) (hlt : c < p) : r.front n = f (nextIndex n p c) := by
  have hmod := Nat.div_add_mod (p - c - 1) n
  have hsmall := Nat.mod_lt (p - c - 1) hn
  have hi : (nextIndex n p c + 1) % n = (c + 1) % n := by
    rw [nextIndex, Nat.add_right_comm, Nat.add_mul_mod_self_left]
  rw [RingBuffer.front, h.tail, Nat.mod_add_mod, ← hi]
  apply h.slot _ (nextIndex_lt hlt)
  rw [nextIndex]
  omega

lemma advance (h : Tracks n f p c r) (hlt : c < p) : Tracks n f p (c + 1) (r.advance n) :=
  ⟨h.pos, by rw [RingBuffer.advance, h.tail, Nat.mod_add_mod], hlt, h.slot⟩

lemma caught_iff (h : Tracks n f p c r) : r.tail = r.pos ↔ c % n = p % n := by
  rw [h.tail, h.pos]

lemma caught_room (h : Tracks n f p c r) (hroom : p < c + n) : r.tail = r.pos ↔ c = p := by
  rw [h.caught_iff]
  refine ⟨fun he => ?_, fun he => by rw [he]⟩
  have hd : n ∣ p - c := (Nat.modEq_iff_dvd' h.le).mp he
  have hle := h.le
  have := Nat.eq_zero_of_dvd_of_lt hd (by omega)
  omega

end Tracks

end WordOS.Lib.Rings
