import WordOS.Lib.Bytes

/-! The copies of `string.c`: `memmove` and `strncpy`, and the name that `create_process` stores. -/

namespace WordOS.Memory

open Lib.Bytes

def memmove (m : Mem) (s1 s2 n : ℕ) : Mem := memcpy m s1 s2 n

/-- The loop of `strncpy` with `left` passes to go. Its body does not use `i`; addresses have 32 bits. -/
def strncpyFrom (m : Mem) (dst src n : ℕ) : (left : ℕ) → Mem
  | 0 => m
  | left + 1 =>
    let m := Function.update m ((src + n) % 2 ^ 32) (m ((dst + n) % 2 ^ 32))
    if m ((src + n) % 2 ^ 32) = 0 then m else strncpyFrom m dst src n left

def strncpy (m : Mem) (dst src n : ℕ) : Mem := strncpyFrom m dst src n n

def P_NAME_MAX_LEN : ℕ := 64

/-- What `create_process` does to the new record up to its name; `sizeof(process)` is that of a pointer. -/
def recordName (m : Mem) (process name : ℕ) : Mem :=
  strncpy (memset m process 0 4) (process + 16) name P_NAME_MAX_LEN

structure MovedBytes (m m' : Mem) (s1 s2 n : ℕ) : Prop where
  moved : ∀ i < n, m' (s1 + i) = m (s2 + i)
  frame : ∀ x, x < s1 ∨ s1 + n ≤ x → m' x = m x

/-- A string of `length` characters and its NUL, which ends within the address space. -/
structure StringAt (m : Mem) (src length : ℕ) : Prop where
  nonzero : ∀ i < length, m (src + i) ≠ 0
  nul : m (src + length) = 0
  bound : src + length < 2 ^ 32

/-- The characters of `src` with the NUL, or the first `n` of them. -/
def Recorded (m m' : Mem) (dst src length n : ℕ) : Prop :=
  ∀ i < n, i ≤ length → m' (dst + i) = m (src + i)

structure Copied (m m' : Mem) (dst src length n : ℕ) : Prop where
  recorded : Recorded m m' dst src length n
  source : ∀ i ≤ length, m' (src + i) = m (src + i)
  frame : ∀ x, x < dst ∨ dst + n ≤ x → m' x = m x

def Elsewhere (dst src length n : ℕ) : Prop := dst + n ≤ src ∨ src + length < dst

variable {m : Mem} {dst src length n : ℕ}

lemma memmove_of_period {s1 s2 d i : ℕ} (hd : s1 = s2 + d) (hpos : 0 < d) (hi : i < n)
    (hper : ∀ j, j + d < n → m (s2 + j) = m (s2 + j + d)) : memmove m s1 s2 n (s1 + i) = m (s2 + i) := by
  subst hd
  rw [memmove, memcpy_repeats hpos hi]
  induction i using Nat.strong_induction_on with
  | _ i ih =>
    by_cases hlt : i < d
    · rw [Nat.mod_eq_of_lt hlt]
    · obtain ⟨j, rfl⟩ : ∃ j, i = j + d := ⟨i - d, by omega⟩
      rw [Nat.add_mod_right, ih j (by omega) (by omega), hper j hi, Nat.add_assoc]

theorem memmove_moves_iff (m : Mem) (s1 s2 n : ℕ) :
    MovedBytes m (memmove m s1 s2 n) s1 s2 n ↔
      s1 ≤ s2 ∨ s2 + n ≤ s1 ∨ ∀ i, i + (s1 - s2) < n → m (s2 + i) = m (s2 + i + (s1 - s2)) := by
  have hframe : ∀ x, x < s1 ∨ s1 + n ≤ x → memmove m s1 s2 n x = m x := fun x hx => memcpy_of_outside hx
  by_cases hout : s1 ≤ s2 ∨ s2 + n ≤ s1
  · exact iff_of_true ⟨fun i hi => memcpy_copied hout hi, hframe⟩ (by tauto)
  obtain ⟨d, hd, hpos⟩ : ∃ d, s1 = s2 + d ∧ 0 < d := ⟨s1 - s2, by omega, by omega⟩
  have hsub : s1 - s2 = d := by omega
  rw [hsub]
  constructor
  · rintro ⟨hmoved, -⟩
    right
    right
    intro i hi
    have hrep : ∀ j < n, m (s2 + j % d) = m (s2 + j) := by
      intro j hj
      rw [← hmoved j hj, hd]
      exact (memcpy_repeats hpos hj).symm
    calc m (s2 + i) = m (s2 + i % d) := (hrep i (by omega)).symm
      _ = m (s2 + (i + d) % d) := by rw [Nat.add_mod_right]
      _ = m (s2 + (i + d)) := hrep (i + d) hi
      _ = m (s2 + i + d) := by rw [Nat.add_assoc]
  · intro h
    have hper : ∀ i, i + d < n → m (s2 + i) = m (s2 + i + d) := by tauto
    exact ⟨fun i hi => memmove_of_period hd hpos hi hper, hframe⟩

/-- Three bytes, moved up by one. -/
theorem memmove_counterexample :
    ¬ MovedBytes (fun a => BitVec.ofNat 8 a) (memmove (fun a => BitVec.ofNat 8 a) 1 0 3) 1 0 3 := by
  intro h
  exact absurd (h.moved 1 (by decide)) (by decide)

/-- Every pass stores the same byte at the same place. -/
lemma strncpyFrom_eq (left : ℕ) :
    strncpyFrom m dst src n (left + 1) = Function.update m ((src + n) % 2 ^ 32) (m ((dst + n) % 2 ^ 32)) := by
  generalize hS : (src + n) % 2 ^ 32 = S
  generalize hD : (dst + n) % 2 ^ 32 = D
  have hkeep : Function.update m S (m D) D = m D := by
    by_cases hSD : D = S
    · rw [hSD, Function.update_self]
    · exact Function.update_of_ne hSD ..
  induction left generalizing m with
  | zero => simp only [strncpyFrom, hS, hD, ite_self]
  | succ left ih =>
    rw [strncpyFrom]
    simp only [hS, hD]
    split
    · rfl
    · rw [ih, hkeep, Function.update_idem]
      rw [hkeep, Function.update_idem, hkeep]

/-- What `dst` holds after the one store, by its own bytes before. -/
def Standing (m : Mem) (dst src length n : ℕ) : Prop :=
  ∀ i < n, i ≤ length →
    (if dst + i = (src + n) % 2 ^ 32 then m ((dst + n) % 2 ^ 32) else m (dst + i)) = m (src + i)

lemma recorded_strncpy_iff (hn : n ≠ 0) : Recorded m (strncpy m dst src n) dst src length n ↔ Standing m dst src length n := by
  obtain ⟨k, rfl⟩ := Nat.exists_eq_succ_of_ne_zero hn
  rw [strncpy, strncpyFrom_eq]
  refine forall_congr' fun i => forall_congr' fun _ => forall_congr' fun _ => ?_
  rw [Function.update_apply]

lemma frame_strncpy_iff (hn : n ≠ 0) :
    (∀ x, x < dst ∨ dst + n ≤ x → strncpy m dst src n x = m x) ↔
      (dst ≤ (src + n) % 2 ^ 32 ∧ (src + n) % 2 ^ 32 < dst + n) ∨ m ((src + n) % 2 ^ 32) = m ((dst + n) % 2 ^ 32) := by
  obtain ⟨k, rfl⟩ := Nat.exists_eq_succ_of_ne_zero hn
  rw [strncpy, strncpyFrom_eq]
  constructor
  · intro h
    by_cases hin : dst ≤ (src + (k + 1)) % 2 ^ 32 ∧ (src + (k + 1)) % 2 ^ 32 < dst + (k + 1)
    · exact Or.inl hin
    · have hh := h _ (by omega : (src + (k + 1)) % 2 ^ 32 < dst ∨ dst + (k + 1) ≤ (src + (k + 1)) % 2 ^ 32)
      rw [Function.update_self] at hh
      exact Or.inr hh.symm
  · intro h x hx
    rw [Function.update_apply]
    split
    · next heq =>
      subst heq
      rcases h with h | h
      · omega
      · exact h.symm
    · rfl

lemma copied_strncpy_iff (m : Mem) (hout : Elsewhere dst src length n) :
    Copied m (strncpy m dst src n) dst src length n ↔
      n = 0 ∨
        ((dst ≤ (src + n) % 2 ^ 32 ∧ (src + n) % 2 ^ 32 < dst + n) ∨ m ((src + n) % 2 ^ 32) = m ((dst + n) % 2 ^ 32)) ∧
          Standing m dst src length n := by
  by_cases hn : n = 0
  · subst hn
    exact iff_of_true ⟨fun i hi => absurd hi (Nat.not_lt_zero i), fun _ _ => rfl, fun _ _ => rfl⟩ (Or.inl rfl)
  · constructor
    · intro h
      exact Or.inr ⟨(frame_strncpy_iff hn).mp h.frame, (recorded_strncpy_iff hn).mp h.recorded⟩
    · rintro (h | ⟨hframe, hstand⟩)
      · exact absurd h hn
      · have hkeep := (frame_strncpy_iff hn).mpr hframe
        have hsource : ∀ i ≤ length, strncpy m dst src n (src + i) = m (src + i) := by
          intro i hi
          unfold Elsewhere at hout
          exact hkeep _ (by omega)
        exact ⟨(recorded_strncpy_iff hn).mpr hstand, hsource, hkeep⟩

lemma recordName_recorded_iff (m : Mem) {process name : ℕ} (hout : Elsewhere process name length 88) :
    Recorded m (recordName m process name) (process + 16) name length P_NAME_MAX_LEN ↔
      Standing (memset m process 0 4) (process + 16) name length P_NAME_MAX_LEN := by
  rw [← recorded_strncpy_iff (by decide)]
  refine forall_congr' fun i => forall_congr' fun _ => forall_congr' fun hi => ?_
  have hkeep : memset m process 0 4 (name + i) = m (name + i) := by
    unfold Elsewhere at hout
    exact memset_of_outside (by omega)
  rw [recordName, hkeep]

/-- For the strings of `StringAt` and others; `length` is where `src` ends. -/
theorem strncpy_copied_iff (m : Mem) (dst src length n : ℕ) (hout : Elsewhere dst src length n) :
    (Copied m (strncpy m dst src n) dst src length n ↔
      n = 0 ∨
        ((dst ≤ (src + n) % 2 ^ 32 ∧ (src + n) % 2 ^ 32 < dst + n) ∨ m ((src + n) % 2 ^ 32) = m ((dst + n) % 2 ^ 32)) ∧
          Standing m dst src length n) ∧
      ∀ process, Elsewhere process src length 88 →
        (Recorded m (recordName m process src) (process + 16) src length P_NAME_MAX_LEN ↔
          Standing (memset m process 0 4) (process + 16) src length P_NAME_MAX_LEN) :=
  ⟨copied_strncpy_iff m hout, fun _ hp => recordName_recorded_iff m hp⟩

/-- One letter and a NUL at `0`. -/
def oneLetter : Mem := Function.update (fun _ => 0) 0 97

theorem strncpy_copied_iff_oneLetter :
    (Copied oneLetter (strncpy oneLetter 100 0 8) 100 0 1 8 ↔
      8 = 0 ∨
        ((100 ≤ (0 + 8) % 2 ^ 32 ∧ (0 + 8) % 2 ^ 32 < 100 + 8) ∨ oneLetter ((0 + 8) % 2 ^ 32) = oneLetter ((100 + 8) % 2 ^ 32)) ∧
          Standing oneLetter 100 0 1 8) ∧
      (Recorded oneLetter (recordName oneLetter 200 0) (200 + 16) 0 1 P_NAME_MAX_LEN ↔
        Standing (memset oneLetter 200 0 4) (200 + 16) 0 1 P_NAME_MAX_LEN) :=
  ⟨(strncpy_copied_iff oneLetter 100 0 1 8 (by unfold Elsewhere; omega)).left,
    (strncpy_copied_iff oneLetter 100 0 1 8 (by unfold Elsewhere; omega)).right 200 (by unfold Elsewhere; omega)⟩

theorem strncpy_counterexample :
    ¬ ∀ (m : Mem) (dst src length n : ℕ), StringAt m src length → dst + n ≤ 2 ^ 32 → Elsewhere dst src length n →
      Copied m (strncpy m dst src n) dst src length n := by
  intro h
  have hstring : StringAt oneLetter 0 1 := by
    refine ⟨fun i hi => ?_, by decide, by decide⟩
    obtain rfl : i = 0 := by omega
    decide
  have hh := (h oneLetter 100 0 1 8 hstring (by decide) (by unfold Elsewhere; omega)).recorded 0 (by decide) (by decide)
  exact absurd hh (by decide)

end WordOS.Memory
