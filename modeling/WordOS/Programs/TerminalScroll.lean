import WordOS.Programs.Terminal

/-! What the loops of `scroll_text_buffer_down` do to the text. -/

namespace WordOS.Programs

open Machine

def Terminal.size (s : Terminal) : ℤ := s.maxCharX * s.maxCharY

lemma u16_of_lt {x : ℕ} (h : x < 2 ^ 16) : u16 x = x := Nat.mod_eq_of_lt h

lemma u16_lt (x : ℕ) : u16 x < 2 ^ 16 := Nat.mod_lt _ (by decide)

lemma u16Sub_of_le {x y : ℕ} (h : y ≤ x) (hx : x < 2 ^ 16) : u16Sub x y = x - y := by
  simp only [u16Sub, u16]
  omega

namespace Terminal

lemma put_of_lt {s : Terminal} {i : ℕ} (h : i < s.size + 1) (ch : UInt8) :
    s.put i ch = .ok { s with textBuffer := Function.update s.textBuffer i ch } := if_pos h

lemma put_of_ge {s : Terminal} {i : ℕ} (h : s.size + 1 ≤ i) (ch : UInt8) : s.put i ch = .error .fault :=
  if_neg (not_lt.mpr h)

end Terminal

lemma countLine_newline (s : Terminal) : countLine s NEWLINE = u16 (s.curLines + 1) := if_pos rfl

lemma countLine_of_ne (s : Terminal) {ch : UInt8} (h : ch ≠ NEWLINE) : countLine s ch = s.curLines := if_neg h

lemma printChar_full {full : ℕ → ℤ → Bool} {s : Terminal} {ch : UInt8} (h : full (countLine s ch) s.maxCharY = true) :
    printChar full s ch =
      (scrollTextBufferDown { s with curLines := countLine s ch } >>= fun t => putNext t ch) := by
  simp only [printChar, h, if_true]

lemma printChar_room {full : ℕ → ℤ → Bool} {s : Terminal} {ch : UInt8} (h : full (countLine s ch) s.maxCharY = false) :
    printChar full s ch = putNext { s with curLines := countLine s ch } ch := by
  simp only [printChar, h, Bool.false_eq_true, if_false]
  rfl

lemma endFirstLine_le (textBuffer : ℕ → UInt8) (n i : ℕ) : endFirstLine textBuffer n i ≤ n + i := by
  induction n generalizing i with
  | zero => exact Nat.zero_le _
  | succ n ih =>
    rw [endFirstLine]
    split
    · omega
    · have := ih (i + 1)
      omega

/-- A newline at `i + l`, the first one, ends the first line. -/
lemma endFirstLine_eq {textBuffer : ℕ → UInt8} {n i l : ℕ} (hb : ∀ j < l, textBuffer (i + j) ≠ NEWLINE)
    (he : textBuffer (i + l) = NEWLINE) (hl : l < n) : endFirstLine textBuffer n i = i + l + 1 := by
  induction n generalizing i l with
  | zero => omega
  | succ n ih =>
    rw [endFirstLine]
    cases l with
    | zero => exact if_pos he
    | succ l =>
      have h0 : textBuffer i ≠ NEWLINE := hb 0 (Nat.succ_pos l)
      rw [if_neg h0, ih (l := l)]
      · omega
      · intro j hj
        rw [show i + 1 + j = i + (j + 1) by omega]
        exact hb (j + 1) (by omega)
      · rw [show i + 1 + l = i + (l + 1) by omega]
        exact he
      · omega

/-- The buffer after `k` characters from `c + e` on have moved to `c`. -/
def moved (textBuffer : ℕ → UInt8) (e c k : ℕ) (i : ℕ) : UInt8 :=
  if c ≤ i ∧ i < c + k then textBuffer (i + e) else textBuffer i

lemma moved_succ (textBuffer : ℕ → UInt8) (e c k : ℕ) :
    moved (Function.update textBuffer c (textBuffer (c + e))) e (c + 1) k = moved textBuffer e c (k + 1) := by
  funext i
  simp only [moved]
  rcases lt_trichotomy i c with h | h | h
  · rw [if_neg (by omega), if_neg (by omega), Function.update_of_ne (by omega)]
  · subst h
    rw [if_neg (by omega), if_pos (by omega), Function.update_self]
  · by_cases hk : i < c + (k + 1)
    · rw [if_pos (by omega), if_pos (by omega), Function.update_of_ne (by omega)]
    · rw [if_neg (by omega), if_neg (by omega), Function.update_of_ne (by omega)]

/-- The loop moves `k` characters: a NUL or the end of the screen stops it. -/
lemma moveChars_run {s : Terminal} {e n k c : ℕ} (hk : k ≤ n) (ht : ∀ j < k, s.textBuffer (c + j + e) ≠ 0)
    (hs : k < n → s.textBuffer (c + k + e) = 0) (hb : (c + k : ℕ) ≤ s.size + 1) :
    moveChars e n c s = .ok (c + k, { s with textBuffer := moved s.textBuffer e c k }) := by
  induction k generalizing s n c with
  | zero =>
    have hm : moved s.textBuffer e c 0 = s.textBuffer := by
      funext i
      exact if_neg (by omega)
    rw [hm]
    cases n with
    | zero => rfl
    | succ n => exact if_pos (hs (Nat.succ_pos n))
  | succ k ih =>
    obtain ⟨n, rfl⟩ : ∃ m, n = m + 1 := ⟨n - 1, by omega⟩
    have h0 : s.textBuffer (c + e) ≠ 0 := ht 0 (Nat.succ_pos k)
    have hp := s.put_of_lt (i := c) (by push_cast at hb; omega) (s.textBuffer (c + e))
    rw [moveChars, if_neg h0, hp]
    have hrec := ih (s := { s with textBuffer := Function.update s.textBuffer c (s.textBuffer (c + e)) })
      (n := n) (c := c + 1) (by omega)
      (fun j hj => by
        dsimp only
        rw [Function.update_of_ne (by omega), show c + 1 + j + e = c + (j + 1) + e by omega]
        exact ht (j + 1) (by omega))
      (fun hn => by
        dsimp only
        rw [Function.update_of_ne (by omega), show c + 1 + k + e = c + (k + 1) + e by omega]
        exact hs (by omega))
      (by rw [show c + 1 + k = c + (k + 1) by omega]; exact hb)
    dsimp only at hrec
    rw [moved_succ, show c + 1 + k = c + (k + 1) by omega] at hrec
    exact hrec

/-- The buffer with `k` zeros from `i` on. -/
def cleared (textBuffer : ℕ → UInt8) (i k : ℕ) (j : ℕ) : UInt8 :=
  if i ≤ j ∧ j < i + k then 0 else textBuffer j

lemma cleared_succ (textBuffer : ℕ → UInt8) (i k : ℕ) :
    cleared (Function.update textBuffer i 0) (i + 1) k = cleared textBuffer i (k + 1) := by
  funext j
  simp only [cleared]
  rcases lt_trichotomy j i with h | h | h
  · rw [if_neg (by omega), if_neg (by omega), Function.update_of_ne (by omega)]
  · subst h
    rw [if_neg (by omega), if_pos (by omega), Function.update_self]
  · by_cases hk : j < i + (k + 1)
    · rw [if_pos (by omega), if_pos (by omega)]
    · rw [if_neg (by omega), if_neg (by omega), Function.update_of_ne (by omega)]

lemma clearChars_run {s : Terminal} {n k i : ℕ} (hk : k ≤ n) (ht : ∀ j < k, s.textBuffer (i + j) ≠ 0)
    (hs : s.textBuffer (i + k) = 0) (hb : (i + k : ℕ) ≤ s.size + 1) :
    clearChars n i s = .ok { s with textBuffer := cleared s.textBuffer i k } := by
  induction k generalizing s n i with
  | zero =>
    have hm : cleared s.textBuffer i 0 = s.textBuffer := by
      funext j
      exact if_neg (by omega)
    rw [hm]
    cases n with
    | zero => exact if_pos hs
    | succ n => exact if_pos hs
  | succ k ih =>
    obtain ⟨n, rfl⟩ : ∃ m, n = m + 1 := ⟨n - 1, by omega⟩
    have h0 : s.textBuffer i ≠ 0 := ht 0 (Nat.succ_pos k)
    have hp := s.put_of_lt (i := i) (by push_cast at hb; omega) 0
    rw [clearChars, if_neg h0, hp]
    have hrec := ih (s := { s with textBuffer := Function.update s.textBuffer i 0 }) (n := n) (i := i + 1) (by omega)
      (fun j hj => by
        dsimp only
        rw [Function.update_of_ne (by omega), show i + 1 + j = i + (j + 1) by omega]
        exact ht (j + 1) (by omega))
      (by
        dsimp only
        rw [Function.update_of_ne (by omega), show i + 1 + k = i + (k + 1) by omega]
        exact hs)
      (by rw [show i + 1 + k = i + (k + 1) by omega]; exact hb)
    dsimp only at hrec
    rw [cleared_succ] at hrec
    exact hrec

lemma scroll_run {s : Terminal} {k m : ℕ} (hk : k ≤ (s.size - firstLine s).toNat)
    (ht : ∀ j < k, s.textBuffer (j + firstLine s) ≠ 0)
    (hs : k < (s.size - firstLine s).toNat → s.textBuffer (k + firstLine s) = 0)
    (hc : ∀ j < m, s.textBuffer (k + j) ≠ 0) (hz : s.textBuffer (k + m) = 0) (hm : (k + m : ℕ) ≤ s.size + 1) :
    scrollTextBufferDown s = .ok { s with
      textBuffer := cleared (moved s.textBuffer (firstLine s) 0 k) k m
      curLines := u16Sub s.curLines 1
      textbufLoc := u16Sub s.textbufLoc (firstLine s) } := by
  have hmove := moveChars_run (s := s) (e := firstLine s) (c := 0) hk
    (fun j hj => by rw [Nat.zero_add]; exact ht j hj) (fun h => by rw [Nat.zero_add]; exact hs h)
    (by push_cast at hm ⊢; omega)
  rw [Nat.zero_add] at hmove
  -- beyond the moved characters the buffer is as it was
  have hsame : ∀ j, moved s.textBuffer (firstLine s) 0 k (k + j) = s.textBuffer (k + j) :=
    fun j => if_neg (by omega)
  have hclear := clearChars_run (s := { s with textBuffer := moved s.textBuffer (firstLine s) 0 k })
    (n := (s.size + 1 - k).toNat) (i := k) (k := m) (by push_cast at hm; omega)
    (fun j hj => by dsimp only; rw [hsame]; exact hc j hj) (by dsimp only; rw [hsame]; exact hz) hm
  simp only [scrollTextBufferDown]
  change (moveChars (firstLine s) (s.size - firstLine s).toNat 0 s >>= fun r =>
    clearChars (s.size + 1 - r.1).toNat r.1 r.2 >>= fun t => _) = _
  rw [hmove]
  change (clearChars (s.size + 1 - k).toNat k _ >>= fun t => _) = _
  rw [hclear]
  rfl

end WordOS.Programs
