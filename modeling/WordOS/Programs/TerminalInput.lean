import WordOS.Lib.LineEditing
import WordOS.Lib.Reversal
import WordOS.Programs.TerminalBounds

/-! The input line: what `write_user_char` makes of the keys that are typed. -/

namespace WordOS.Programs

open Machine Lib.LineEditing Lib.Reversal

/-- The line is as `init_terminal` leaves it, whatever has been printed since. -/
def FreshLine (s : Terminal) : Prop := ∃ screenWidth screenHeight memory userMemory textBuffer textbufLoc curLines,
  s = { initTerminal screenWidth screenHeight memory userMemory with textBuffer, textbufLoc, curLines }

def lineWidth (s : Terminal) : ℕ := (s.maxCharX - 2).toNat

structure LineHolds (chars : List UInt8) (s : Terminal) : Prop where
  index : s.userCharIndex = 2 + (edited BACKSPACE (lineWidth s) chars).length
  bounds : 2 ≤ s.userCharIndex ∧ s.userCharIndex ≤ s.maxCharX
  prompt : s.userChars 0 = 62 ∧ s.userChars 1 = 32
  typed : Spells s.userChars 2 (edited BACKSPACE (lineWidth s) chars)
  erased : ∀ i, s.userCharIndex ≤ i → i < 2 + longest BACKSPACE (lineWidth s) chars → s.userChars i = 32
  blank : ∀ i : ℕ, 2 + longest BACKSPACE (lineWidth s) chars ≤ i → i ≤ s.maxCharX → s.userChars i = 0

variable {s t : Terminal} {ch : UInt8} {chars : List UInt8}

lemma writeUserChar_cases (h : writeUserChar s ch = .ok t) :
    ch = BACKSPACE ∧ s.userCharIndex ≤ 2 ∧ t = s ∨
    (ch = BACKSPACE ∧ 2 < s.userCharIndex ∧ t = { s with
      userCharIndex := s.userCharIndex - 1
      userChars := Function.update s.userChars (s.userCharIndex - 1) 32 }) ∨
    ch ≠ BACKSPACE ∧ s.userCharIndex = s.maxCharX ∧ t = s ∨
    ch ≠ BACKSPACE ∧ s.userCharIndex ≠ s.maxCharX ∧ ∃ b, t = { s with
      textBuffer := b
      userCharIndex := u16 (s.userCharIndex + 1)
      userChars := Function.update s.userChars s.userCharIndex ch } := by
  rw [writeUserChar] at h
  split_ifs at h with hback hfew hfull
  · exact Or.inl ⟨hback, hfew, (Except.ok.inj h).symm⟩
  · exact Or.inr (Or.inl ⟨hback, by omega, (Except.ok.inj h).symm⟩)
  · exact Or.inr (Or.inr (Or.inl ⟨hback, hfull, (Except.ok.inj h).symm⟩))
  · obtain ⟨u, hu, hlast⟩ := bind_eq_ok.mp h
    obtain ⟨-, rfl⟩ := Terminal.put_eq_ok hu
    exact Or.inr (Or.inr (Or.inr ⟨hback, hfull, _, (Except.ok.inj hlast).symm⟩))

lemma writeUserChar_stays (h : writeUserChar s ch = .ok t) :
    t.maxCharX = s.maxCharX ∧ t.maxCharY = s.maxCharY ∧ t.textbufLoc = s.textbufLoc := by
  rcases writeUserChar_cases h with ⟨-, -, rfl⟩ | ⟨-, -, rfl⟩ | ⟨-, -, rfl⟩ | ⟨-, -, b, rfl⟩
  all_goals exact ⟨rfl, rfl, rfl⟩

lemma FreshLine.width (h : FreshLine s) : s.maxCharX < 2 ^ 15 := by
  obtain ⟨screenWidth, screenHeight, memory, userMemory, textBuffer, textbufLoc, curLines, rfl⟩ := h
  have hlt := screenWidth.toNat_lt
  change ((screenWidth.toNat / 8 : ℕ) : ℤ) - 1 < 2 ^ 15
  omega

lemma FreshLine.holds (h : FreshLine s) (h2 : 2 ≤ s.maxCharX) : LineHolds [] s := by
  obtain ⟨screenWidth, screenHeight, memory, userMemory, textBuffer, textbufLoc, curLines, rfl⟩ := h
  refine ⟨rfl, ⟨le_refl 2, h2⟩, ⟨rfl, rfl⟩, fun i hi => absurd hi (Nat.not_lt_zero i), fun i hi hlt => ?_, fun i hi hle => ?_⟩
  · change 2 ≤ i at hi
    rw [longest_nil] at hlt
    omega
  · rw [longest_nil] at hi
    change (if i = 0 then 62 else if i = 1 then 32 else if _ then 0 else userMemory i) = (0 : UInt8)
    rw [if_neg (by omega), if_neg (by omega)]
    exact if_pos (Int.lt_add_one_of_le hle)

namespace LineHolds

lemma same (h : LineHolds chars s) (hsame : edited BACKSPACE (lineWidth s) (chars ++ [ch]) = edited BACKSPACE (lineWidth s) chars) :
    LineHolds (chars ++ [ch]) s := by
  have hlongest : longest BACKSPACE (lineWidth s) (chars ++ [ch]) = longest BACKSPACE (lineWidth s) chars := by
    rw [longest_snoc, hsame]
    exact max_eq_left (le_longest _ _ _)
  exact ⟨by rw [hsame]; exact h.index, h.bounds, h.prompt, by rw [hsame]; exact h.typed, by rw [hlongest]; exact h.erased,
    by rw [hlongest]; exact h.blank⟩

lemma erase (h : LineHolds chars s) (hmore : 2 < s.userCharIndex) : LineHolds (chars ++ [BACKSPACE]) { s with
    userCharIndex := s.userCharIndex - 1
    userChars := Function.update s.userChars (s.userCharIndex - 1) 32 } := by
  have hindex := h.index
  have hle := le_longest BACKSPACE (lineWidth s) chars
  have hedit : edited BACKSPACE (lineWidth s) (chars ++ [BACKSPACE]) = (edited BACKSPACE (lineWidth s) chars).dropLast := by
    rw [edited_snoc, editLine, if_pos rfl]
  have hlen : (edited BACKSPACE (lineWidth s) (chars ++ [BACKSPACE])).length = s.userCharIndex - 3 := by
    rw [hedit, List.length_dropLast]
    omega
  have hlongest : longest BACKSPACE (lineWidth s) (chars ++ [BACKSPACE]) = longest BACKSPACE (lineWidth s) chars := by
    rw [longest_snoc, hlen]
    omega
  refine ⟨?_, ⟨?_, ?_⟩, ⟨?_, ?_⟩, ?_, ?_, ?_⟩
  · change s.userCharIndex - 1 = 2 + (edited BACKSPACE (lineWidth s) (chars ++ [BACKSPACE])).length
    omega
  · exact Nat.le_sub_one_of_lt hmore
  · have hhigh := h.bounds.2
    dsimp only
    omega
  · exact (Function.update_of_ne (by omega) ..).trans h.prompt.1
  · exact (Function.update_of_ne (by omega) ..).trans h.prompt.2
  · change Spells (Function.update s.userChars (s.userCharIndex - 1) 32) 2 (edited BACKSPACE (lineWidth s) (chars ++ [BACKSPACE]))
    have hfull := h.typed
    have hne : edited BACKSPACE (lineWidth s) chars ≠ [] := by
      rw [← List.length_pos_iff]
      omega
    rw [← List.dropLast_append_getLast hne] at hfull
    rw [hedit]
    apply hfull.left.congr
    intro i hi
    rw [← hedit, hlen] at hi
    exact Function.update_of_ne (by omega) ..
  · change ∀ i, s.userCharIndex - 1 ≤ i → i < 2 + longest BACKSPACE (lineWidth s) (chars ++ [BACKSPACE]) →
      Function.update s.userChars (s.userCharIndex - 1) 32 i = 32
    intro i hi hlt
    rw [hlongest] at hlt
    rcases Nat.lt_or_eq_of_le hi with hnext | rfl
    · rw [Function.update_of_ne (by omega)]
      exact h.erased i (by omega) hlt
    · exact Function.update_self ..
  · change ∀ i : ℕ, 2 + longest BACKSPACE (lineWidth s) (chars ++ [BACKSPACE]) ≤ i → i ≤ s.maxCharX →
      Function.update s.userChars (s.userCharIndex - 1) 32 i = 0
    intro i hi hx
    rw [hlongest] at hi
    rw [Function.update_of_ne (by omega)]
    exact h.blank i hi hx

lemma type (h : LineHolds chars s) (hx : s.maxCharX < 2 ^ 15) (hch : ch ≠ BACKSPACE) (hroom : s.userCharIndex ≠ s.maxCharX)
    (b : ℕ → UInt8) : LineHolds (chars ++ [ch]) { s with
      textBuffer := b
      userCharIndex := u16 (s.userCharIndex + 1)
      userChars := Function.update s.userChars s.userCharIndex ch } := by
  have hindex := h.index
  obtain ⟨hlow, hhigh⟩ := h.bounds
  have hwidth : (lineWidth s : ℤ) = s.maxCharX - 2 := Int.toNat_of_nonneg (by omega)
  have hnext : u16 (s.userCharIndex + 1) = s.userCharIndex + 1 := u16_of_lt (by omega)
  have hedit : edited BACKSPACE (lineWidth s) (chars ++ [ch]) = edited BACKSPACE (lineWidth s) chars ++ [ch] := by
    rw [edited_snoc, editLine, if_neg hch, if_neg (by omega)]
  have hlen : (edited BACKSPACE (lineWidth s) (chars ++ [ch])).length = s.userCharIndex - 1 := by
    rw [hedit, List.length_append, List.length_singleton]
    omega
  have hlongest : longest BACKSPACE (lineWidth s) (chars ++ [ch]) =
      max (longest BACKSPACE (lineWidth s) chars) (s.userCharIndex - 1) := by
    rw [longest_snoc, hlen]
  rw [hnext]
  refine ⟨?_, ⟨?_, ?_⟩, ⟨?_, ?_⟩, ?_, ?_, ?_⟩
  · change s.userCharIndex + 1 = 2 + (edited BACKSPACE (lineWidth s) (chars ++ [ch])).length
    omega
  · exact le_trans hlow (Nat.le_succ _)
  · dsimp only
    omega
  · exact (Function.update_of_ne (by omega) ..).trans h.prompt.1
  · exact (Function.update_of_ne (by omega) ..).trans h.prompt.2
  · change Spells (Function.update s.userChars s.userCharIndex ch) 2 (edited BACKSPACE (lineWidth s) (chars ++ [ch]))
    rw [hedit, hindex]
    exact h.typed.snoc
  · change ∀ i, s.userCharIndex + 1 ≤ i → i < 2 + longest BACKSPACE (lineWidth s) (chars ++ [ch]) →
      Function.update s.userChars s.userCharIndex ch i = 32
    intro i hi hlt
    rw [hlongest] at hlt
    rw [Function.update_of_ne (by omega)]
    exact h.erased i (by omega) (by omega)
  · change ∀ i : ℕ, 2 + longest BACKSPACE (lineWidth s) (chars ++ [ch]) ≤ i → i ≤ s.maxCharX →
      Function.update s.userChars s.userCharIndex ch i = 0
    intro i hi hle
    rw [hlongest] at hi
    rw [Function.update_of_ne (by omega)]
    exact h.blank i (by omega) hle

lemma step (h : LineHolds chars s) (hx : s.maxCharX < 2 ^ 15) (ht : writeUserChar s ch = .ok t) :
    LineHolds (chars ++ [ch]) t := by
  have hindex := h.index
  have hbounds := h.bounds
  have hwidth : (lineWidth s : ℤ) = s.maxCharX - 2 := Int.toNat_of_nonneg (by omega)
  rcases writeUserChar_cases ht with ⟨rfl, hfew, rfl⟩ | ⟨rfl, hmore, rfl⟩ | ⟨hch, hfull, rfl⟩ | ⟨hch, hroom, b, rfl⟩
  · have hnil : edited BACKSPACE (lineWidth t) chars = [] := List.eq_nil_of_length_eq_zero (by omega)
    apply h.same
    rw [edited_snoc, editLine, if_pos rfl, hnil]
    rfl
  · exact h.erase hmore
  · apply h.same
    rw [edited_snoc, editLine, if_neg hch, if_pos (by omega)]
  · exact h.type hx hch hroom b

lemma run (h : LineHolds [] s) (hx : s.maxCharX < 2 ^ 15) (ht : chars.foldlM writeUserChar s = .ok t) :
    LineHolds chars t ∧ t.maxCharX = s.maxCharX := by
  induction chars using List.reverseRecOn generalizing t with
  | nil => exact Except.ok.inj ht ▸ ⟨h, rfl⟩
  | append_singleton chars ch ih =>
    rw [List.foldlM_append] at ht
    obtain ⟨u, hu, hlast⟩ := bind_eq_ok.mp ht
    obtain ⟨hline, hsame⟩ := ih hu
    rw [List.foldlM_cons] at hlast
    obtain ⟨v, hv, hnil⟩ := bind_eq_ok.mp hlast
    obtain rfl := Except.ok.inj hnil
    exact ⟨hline.step (hsame ▸ hx) hv, (writeUserChar_stays hv).1.trans hsame⟩

/-- With room for a whole line behind the output, every key comes back. -/
lemma returns (h : LineHolds chars s) (hx : s.maxCharX < 2 ^ 15) (hroom : s.textbufLoc + s.maxCharX ≤ s.size + 1)
    (more : List UInt8) : ∃ t, more.foldlM writeUserChar s = .ok t := by
  induction more generalizing chars s with
  | nil => exact ⟨s, rfl⟩
  | cons ch more ih =>
    have hbounds := h.bounds
    obtain ⟨t, ht⟩ := (writeUserChar_returns_iff s ch).mpr (by
      rw [Careful]
      omega)
    obtain ⟨hmaxX, hmaxY, hloc⟩ := writeUserChar_stays ht
    obtain ⟨u, hu⟩ := ih (h.step hx ht) (hmaxX ▸ hx) (by rw [Terminal.size, hmaxX, hmaxY, hloc]; exact hroom)
    rw [List.foldlM_cons, ht]
    exact ⟨u, hu⟩

end LineHolds

/-- The line at every moment: the text of the edits, blanks up to where it has been, and zeros behind. -/
theorem userLine_holds (hs : FreshLine s) (h : 2 ≤ s.maxCharX) (chars : List UInt8) :
    (∀ t, chars.foldlM writeUserChar s = .ok t → LineHolds chars t ∧ t.maxCharX = s.maxCharX) ∧
      (s.textbufLoc + s.maxCharX ≤ s.size + 1 → ∃ t, chars.foldlM writeUserChar s = .ok t) :=
  ⟨fun _ ht => (hs.holds h).run hs.width ht, fun hroom => (hs.holds h).returns hs.width hroom chars⟩

/-- Two letters and a backspace on a line of five characters. -/
theorem userLine_holds_typed : ∃ t, [104, 105, 8].foldlM writeUserChar (initTerminal 64 64 (fun _ => 0) fun _ => 0) = .ok t ∧
    LineHolds [104, 105, 8] t := by
  have hs : FreshLine (initTerminal 64 64 (fun _ => 0) fun _ => 0) := ⟨64, 64, fun _ => 0, fun _ => 0, _, _, _, rfl⟩
  obtain ⟨hline, hreturns⟩ := userLine_holds hs (by decide) [104, 105, 8]
  obtain ⟨t, ht⟩ := hreturns (by decide)
  exact ⟨t, ht, (hline t ht).1⟩

end WordOS.Programs
