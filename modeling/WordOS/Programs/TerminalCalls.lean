import WordOS.Programs.TerminalScroll

/-! What one character can change, from the result of the call. -/

namespace WordOS.Programs

open Machine

namespace Terminal

lemma put_eq_ok {s t : Terminal} {i : ℕ} {ch : UInt8} (h : s.put i ch = .ok t) :
    i < s.size + 1 ∧ t = { s with textBuffer := Function.update s.textBuffer i ch } := by
  rcases lt_or_ge (i : ℤ) (s.size + 1) with hi | hi
  · rw [put_of_lt hi] at h
    exact ⟨hi, (Except.ok.inj h).symm⟩
  · rw [put_of_ge hi] at h
    cases h

end Terminal

lemma moveChars_eq_ok {e n c c' : ℕ} {s t : Terminal} (h : moveChars e n c s = .ok (c', t)) :
    ∃ b, t = { s with textBuffer := b } := by
  induction n generalizing c s with
  | zero =>
    obtain ⟨-, rfl⟩ := Prod.mk.inj (Except.ok.inj h)
    exact ⟨_, rfl⟩
  | succ n ih =>
    rw [moveChars] at h
    split at h
    · obtain ⟨-, rfl⟩ := Prod.mk.inj (Except.ok.inj h)
      exact ⟨_, rfl⟩
    · obtain ⟨u, hu, hrest⟩ := bind_eq_ok.mp h
      obtain ⟨-, rfl⟩ := Terminal.put_eq_ok hu
      obtain ⟨b, rfl⟩ := ih hrest
      exact ⟨b, rfl⟩

lemma clearChars_eq_ok {n i : ℕ} {s t : Terminal} (h : clearChars n i s = .ok t) :
    ∃ b, t = { s with textBuffer := b } := by
  induction n generalizing i s with
  | zero =>
    rw [clearChars] at h
    split at h
    · exact ⟨_, (Except.ok.inj h).symm⟩
    · cases h
  | succ n ih =>
    rw [clearChars] at h
    split at h
    · exact ⟨_, (Except.ok.inj h).symm⟩
    · obtain ⟨u, hu, hrest⟩ := bind_eq_ok.mp h
      obtain ⟨-, rfl⟩ := Terminal.put_eq_ok hu
      obtain ⟨b, rfl⟩ := ih hrest
      exact ⟨b, rfl⟩

lemma scroll_eq_ok {s t : Terminal} (h : scrollTextBufferDown s = .ok t) :
    ∃ b, t = { s with
      textBuffer := b
      curLines := u16Sub s.curLines 1
      textbufLoc := u16Sub s.textbufLoc (firstLine s) } := by
  obtain ⟨⟨c, u⟩, hu, hrest⟩ := bind_eq_ok.mp h
  obtain ⟨v, hv, hlast⟩ := bind_eq_ok.mp hrest
  obtain ⟨b, rfl⟩ := moveChars_eq_ok hu
  obtain ⟨b', rfl⟩ := clearChars_eq_ok hv
  exact ⟨b', (Except.ok.inj hlast).symm⟩

lemma putNext_eq_ok {s t : Terminal} {ch : UInt8} (h : putNext s ch = .ok t) :
    s.textbufLoc < s.size + 1 ∧ t = { s with
      textBuffer := Function.update s.textBuffer s.textbufLoc ch
      textbufLoc := u16 (s.textbufLoc + 1) } := by
  obtain ⟨u, hu, hlast⟩ := bind_eq_ok.mp h
  obtain ⟨hi, rfl⟩ := Terminal.put_eq_ok hu
  exact ⟨hi, (Except.ok.inj hlast).symm⟩

/-- Where a character is put, and the lines that are counted then. -/
def landing (full : ℕ → ℤ → Bool) (s : Terminal) (ch : UInt8) : ℕ × ℕ :=
  if full (countLine s ch) s.maxCharY then (u16Sub s.textbufLoc (firstLine s), u16Sub (countLine s ch) 1)
  else (s.textbufLoc, countLine s ch)

lemma printChar_eq_ok {full : ℕ → ℤ → Bool} {s t : Terminal} {ch : UInt8} (h : printChar full s ch = .ok t) :
    (landing full s ch).1 < s.size + 1 ∧ ∃ b, t = { s with
      textBuffer := Function.update b (landing full s ch).1 ch
      textbufLoc := u16 ((landing full s ch).1 + 1)
      curLines := (landing full s ch).2 } := by
  rw [landing]
  cases hfull : full (countLine s ch) s.maxCharY with
  | true =>
    rw [printChar_full hfull] at h
    obtain ⟨u, hu, hput⟩ := bind_eq_ok.mp h
    obtain ⟨b, rfl⟩ := scroll_eq_ok hu
    obtain ⟨hlt, rfl⟩ := putNext_eq_ok hput
    exact ⟨hlt, b, rfl⟩
  | false =>
    rw [printChar_room hfull] at h
    obtain ⟨hlt, rfl⟩ := putNext_eq_ok h
    exact ⟨hlt, s.textBuffer, rfl⟩

/-- The screen a terminal has, and what is counted on it. -/
structure Counts (s t : Terminal) (curLines : ℕ) : Prop where
  maxCharX : t.maxCharX = s.maxCharX
  maxCharY : t.maxCharY = s.maxCharY
  curLines : t.curLines = curLines

lemma printChar_counts {full : ℕ → ℤ → Bool} {s t : Terminal} {ch : UInt8} (h : printChar full s ch = .ok t) :
    Counts s t (if full (countLine s ch) s.maxCharY then u16Sub (countLine s ch) 1 else countLine s ch) := by
  obtain ⟨-, b, rfl⟩ := printChar_eq_ok h
  refine ⟨rfl, rfl, ?_⟩
  dsimp only
  rw [landing]
  split_ifs
  · rfl
  · rfl

lemma writeChar_counts {s t : Terminal} {ch : UInt8} (h : writeCharTextBuffer s ch = .ok t) :
    Counts s t (if s.maxCharY ≤ countLine s ch then u16Sub (countLine s ch) 1 else countLine s ch) := by
  simpa using printChar_counts h

lemma writeTextChar_counts {s t : Terminal} {ch : UInt8} (h : writeTextChar s ch = .ok t) :
    Counts s t (if s.maxCharY < countLine s ch then u16Sub (countLine s ch) 1 else countLine s ch) := by
  simpa using printChar_counts h

lemma writeUserChar_counts {s t : Terminal} {ch : UInt8} (h : writeUserChar s ch = .ok t) : Counts s t s.curLines := by
  rw [writeUserChar] at h
  split_ifs at h
  · cases h
    exact ⟨rfl, rfl, rfl⟩
  · cases h
    exact ⟨rfl, rfl, rfl⟩
  · cases h
    exact ⟨rfl, rfl, rfl⟩
  · obtain ⟨u, hu, hlast⟩ := bind_eq_ok.mp h
    obtain ⟨-, rfl⟩ := Terminal.put_eq_ok hu
    cases hlast
    exact ⟨rfl, rfl, rfl⟩

end WordOS.Programs
