import WordOS.Programs.TerminalCalls

/-! When the calls stay inside `text_buffer`. -/

namespace WordOS.Programs

open Machine

/-- A NUL stands where the clearing loop looks for one: behind the first line, or behind all that can move. -/
def Stops (s : Terminal) : Prop :=
  ∃ z : ℕ, z ≤ s.size + 1 ∧ s.textBuffer z = 0 ∧ (firstLine s ≤ z ∨ s.size ≤ z + firstLine s)

/-- The place of the next character is inside the buffer, after scrolling where the test asks for it. -/
def Lands (full : ℕ → ℤ → Bool) (s : Terminal) (ch : UInt8) : Prop :=
  if full (countLine s ch) s.maxCharY then Stops s ∧ u16Sub s.textbufLoc (firstLine s) ≤ s.size
  else s.textbufLoc ≤ s.size

/-- The condition on the state before a call; in a text, before each character. -/
def Careful (s : Terminal) : Call → Prop
  | .writeChar ch => Lands (fun curLines maxCharY => curLines ≥ maxCharY) s ch
  | .writeText text => Along writeTextChar (Lands fun curLines maxCharY => curLines > maxCharY) text s
  | .writeUser ch => ch = BACKSPACE ∨ s.userCharIndex = s.maxCharX ∨ s.textbufLoc + s.userCharIndex ≤ s.size
  | .draw => True
  | .startLine => True

lemma exists_moved (b : ℕ → UInt8) (e n : ℕ) :
    ∃ k ≤ n, (∀ j < k, b (j + e) ≠ 0) ∧ (k < n → b (k + e) = 0) := by
  induction n with
  | zero => exact ⟨0, le_refl 0, fun j hj => absurd hj (Nat.not_lt_zero j), fun h => absurd h (Nat.lt_irrefl 0)⟩
  | succ n ih =>
    obtain ⟨k, hk, hb, hs⟩ := ih
    rcases hk.lt_or_eq with hlt | rfl
    · exact ⟨k, by omega, hb, fun _ => hs hlt⟩
    · by_cases h0 : b (k + e) = 0
      · exact ⟨k, by omega, hb, fun _ => h0⟩
      · refine ⟨k + 1, le_refl _, fun j hj => ?_, fun h => absurd h (Nat.lt_irrefl _)⟩
        rcases Nat.lt_succ_iff_lt_or_eq.mp hj with hlt | rfl
        · exact hb j hlt
        · exact h0

lemma exists_cleared {b : ℕ → UInt8} {i z : ℕ} (hi : i ≤ z) (hz : b z = 0) :
    ∃ m, i + m ≤ z ∧ (∀ j < m, b (i + j) ≠ 0) ∧ b (i + m) = 0 := by
  have hex : ∃ m, b (i + m) = 0 := ⟨z - i, by rw [Nat.add_sub_cancel' hi]; exact hz⟩
  refine ⟨Nat.find hex, ?_, fun j hj => Nat.find_min hex hj, Nat.find_spec hex⟩
  have hle : Nat.find hex ≤ z - i := Nat.find_min' hex (by rw [Nat.add_sub_cancel' hi]; exact hz)
  omega

lemma clearChars_ne_ok {n i : ℕ} {s : Terminal} (h : ∀ j ≤ n, s.textBuffer (i + j) ≠ 0) (t : Terminal) :
    clearChars n i s ≠ .ok t := by
  induction n generalizing i s with
  | zero =>
    have h0 : s.textBuffer i ≠ 0 := h 0 (le_refl 0)
    rw [clearChars, if_neg h0]
    exact fun h => by cases h
  | succ n ih =>
    have h0 : s.textBuffer i ≠ 0 := h 0 (Nat.zero_le _)
    rw [clearChars, if_neg h0]
    intro ht
    obtain ⟨u, hu, hrest⟩ := bind_eq_ok.mp ht
    obtain ⟨-, rfl⟩ := Terminal.put_eq_ok hu
    refine ih (fun j hj => ?_) hrest
    dsimp only
    rw [Function.update_of_ne (by omega), show i + 1 + j = i + (j + 1) by omega]
    exact h (j + 1) (by omega)

/-- The loops of `scroll_text_buffer_down` with a NUL ahead: they end at the first one. -/
lemma scroll_of_zero {s : Terminal} {z : ℕ} (hz : s.textBuffer z = 0) (hle : z ≤ s.size + 1)
    (hahead : firstLine s ≤ z ∨ s.size ≤ z + firstLine s) :
    ∃ k m, k ≤ (s.size - firstLine s).toNat ∧ k + m ≤ z ∧ scrollTextBufferDown s = .ok { s with
      textBuffer := cleared (moved s.textBuffer (firstLine s) 0 k) k m
      curLines := u16Sub s.curLines 1
      textbufLoc := u16Sub s.textbufLoc (firstLine s) } := by
  obtain ⟨k, hk, hmove, hstop⟩ := exists_moved s.textBuffer (firstLine s) (s.size - firstLine s).toNat
  have hkz : k ≤ z := by
    by_contra hlt
    rcases hahead with hfirst | hsize
    · have hne := hmove (z - firstLine s) (by omega)
      rw [Nat.sub_add_cancel hfirst] at hne
      exact hne hz
    · omega
  obtain ⟨m, hm, hclear, hzero⟩ := exists_cleared hkz hz
  exact ⟨k, m, hk, hm, scroll_run hk hmove hstop hclear hzero (by omega)⟩

lemma stops_of_scroll {s t : Terminal} (hsize : 0 ≤ s.size) (h : scrollTextBufferDown s = .ok t) : Stops s := by
  obtain ⟨k, hk, hmove, hstop⟩ := exists_moved s.textBuffer (firstLine s) (s.size - firstLine s).toNat
  rcases hk.lt_or_eq with hlt | heq
  · exact ⟨k + firstLine s, by omega, hstop hlt, Or.inl (by omega)⟩
  · by_contra hno
    have hrun := moveChars_run (s := s) (e := firstLine s) (c := 0) hk
      (fun j hj => by rw [Nat.zero_add]; exact hmove j hj) (fun h => by rw [Nat.zero_add]; exact hstop h) (by omega)
    rw [Nat.zero_add] at hrun
    obtain ⟨⟨c, u⟩, hu, hrest⟩ := bind_eq_ok.mp h
    obtain ⟨rfl, rfl⟩ := Prod.mk.inj (Except.ok.inj (hrun.symm.trans hu))
    obtain ⟨v, hv, -⟩ := bind_eq_ok.mp hrest
    refine clearChars_ne_ok (fun j hj => ?_) v hv
    have hsame : moved s.textBuffer (firstLine s) 0 k (k + j) = s.textBuffer (k + j) := if_neg (by omega)
    replace hj : j ≤ (s.size + 1 - k).toNat := hj
    dsimp only
    rw [hsame]
    exact fun hzero => hno ⟨k + j, by omega, hzero, Or.inr (by omega)⟩

lemma putNext_of_le {s : Terminal} (h : s.textbufLoc ≤ s.size) (ch : UInt8) : putNext s ch = .ok { s with
    textBuffer := Function.update s.textBuffer s.textbufLoc ch
    textbufLoc := u16 (s.textbufLoc + 1) } := by
  rw [putNext, Terminal.put_of_lt (Int.lt_add_one_of_le h)]
  rfl

lemma printChar_returns_iff (full : ℕ → ℤ → Bool) (s : Terminal) (ch : UInt8) :
    (∃ t, printChar full s ch = .ok t) ↔ Lands full s ch := by
  rw [Lands]
  cases hfull : full (countLine s ch) s.maxCharY with
  | true =>
    rw [if_pos rfl, printChar_full hfull]
    constructor
    · rintro ⟨t, ht⟩
      obtain ⟨u, hu, hput⟩ := bind_eq_ok.mp ht
      have hu' := hu
      obtain ⟨b, rfl⟩ := scroll_eq_ok hu
      obtain ⟨hlt, -⟩ := putNext_eq_ok hput
      replace hlt : u16Sub s.textbufLoc (firstLine s) < s.size + 1 := hlt
      exact ⟨stops_of_scroll (s := { s with curLines := countLine s ch }) (by change 0 ≤ s.size; omega) hu', by omega⟩
    · rintro ⟨⟨z, hz, hzero, hahead⟩, hland⟩
      obtain ⟨k, m, -, -, hrun⟩ := scroll_of_zero (s := { s with curLines := countLine s ch }) hzero hz hahead
      rw [hrun, ok_bind]
      exact ⟨_, putNext_of_le hland ch⟩
  | false =>
    rw [if_neg Bool.false_ne_true, printChar_room hfull]
    constructor
    · rintro ⟨t, ht⟩
      obtain ⟨hlt, -⟩ := putNext_eq_ok ht
      exact Int.lt_add_one_iff.mp hlt
    · intro hland
      exact ⟨_, putNext_of_le (s := { s with curLines := countLine s ch }) hland ch⟩

lemma writeUserChar_returns_iff (s : Terminal) (ch : UInt8) :
    (∃ t, writeUserChar s ch = .ok t) ↔ Careful s (.writeUser ch) := by
  rw [writeUserChar, Careful]
  by_cases hb : ch = BACKSPACE
  · rw [if_pos hb]
    refine iff_of_true ?_ (Or.inl hb)
    split_ifs
    · exact ⟨_, rfl⟩
    · exact ⟨_, rfl⟩
  · rw [if_neg hb]
    by_cases hx : s.userCharIndex = s.maxCharX
    · rw [if_pos hx]
      exact iff_of_true ⟨_, rfl⟩ (Or.inr (Or.inl hx))
    · rw [if_neg hx]
      constructor
      · rintro ⟨t, ht⟩
        obtain ⟨u, hu, -⟩ := bind_eq_ok.mp ht
        obtain ⟨hlt, -⟩ := Terminal.put_eq_ok hu
        refine Or.inr (Or.inr ?_)
        replace hlt : ((s.textbufLoc + s.userCharIndex : ℕ) : ℤ) < s.size + 1 := hlt
        omega
      · rintro (h | h | h)
        · exact absurd h hb
        · exact absurd h hx
        · let typed : Terminal := { s with userChars := Function.update s.userChars s.userCharIndex ch }
          have hput := Terminal.put_of_lt (s := typed) (i := s.textbufLoc + s.userCharIndex)
            (by change _ < s.size + 1; push_cast; omega) ch
          exact ⟨_, bind_eq_ok.mpr ⟨_, hput, rfl⟩⟩

lemma call_returns_iff (s : Terminal) (c : Call) : (∃ t, c.run s = .ok t) ↔ Careful s c := by
  cases c with
  | writeChar ch => exact printChar_returns_iff (fun curLines maxCharY => curLines ≥ maxCharY) s ch
  | writeText text =>
    exact foldlM_returns_iff (printChar_returns_iff fun curLines maxCharY => curLines > maxCharY) text s
  | writeUser ch => exact writeUserChar_returns_iff s ch
  | draw => exact iff_of_true ⟨_, rfl⟩ trivial
  | startLine => exact iff_of_true ⟨_, rfl⟩ trivial

/-- The calls keep to the buffer exactly when all of them are careful. -/
theorem calls_inside_iff (screenWidth screenHeight : UInt16) (memory userMemory : ℕ → UInt8) (calls : List Call) :
    (∃ t, calls.foldlM Call.run (initTerminal screenWidth screenHeight memory userMemory) = .ok t) ↔
      Along Call.run Careful calls (initTerminal screenWidth screenHeight memory userMemory) :=
  foldlM_returns_iff call_returns_iff calls _

/-- A line of six characters on a screen of two by two: the sixth is written behind the five bytes. -/
theorem calls_overrun :
    ∃ s, (List.replicate 5 (Call.writeChar 97)).foldlM Call.run (initTerminal 24 64 (fun _ => 1) (fun _ => 1)) = .ok s ∧
      s.size + 1 = 5 ∧ s.textbufLoc = 5 ∧ Call.run s (.writeChar 97) = .error .fault := by
  obtain ⟨s, hs, hobs⟩ := exists_of_toOption_map
    (x := (List.replicate 5 (Call.writeChar 97)).foldlM Call.run (initTerminal 24 64 (fun _ => 1) (fun _ => 1)))
    (g := fun s => (s.size + 1, s.textbufLoc, decide (s.maxCharY ≤ s.curLines))) (c := (5, 5, false)) (by decide)
  obtain ⟨hsize, hrest⟩ := Prod.mk.inj hobs
  obtain ⟨hloc, hroom⟩ := Prod.mk.inj hrest
  refine ⟨s, hs, hsize, hloc, ?_⟩
  have hstay : countLine s 97 = s.curLines := countLine_of_ne s (by decide)
  change writeCharTextBuffer s 97 = _
  rw [writeCharTextBuffer, printChar_room (by rw [hstay]; exact hroom), putNext]
  rw [Terminal.put_of_ge (by change s.size + 1 ≤ _; rw [hsize]; exact Int.ofNat_le.mpr hloc.ge)]
  rfl

/-- The NUL behind the last character of the screen is still there. -/
structure Terminated (s : Terminal) : Prop where
  size : 0 < s.size
  buffer : s.textBuffer s.size.toNat = 0

/-- The next character has its place on the screen. -/
def Below (full : ℕ → ℤ → Bool) (s : Terminal) (ch : UInt8) : Prop :=
  (if full (countLine s ch) s.maxCharY then u16Sub s.textbufLoc (firstLine s) else s.textbufLoc) < s.size

def BelowCall (s : Terminal) : Call → Prop
  | .writeChar ch => Below (fun curLines maxCharY => curLines ≥ maxCharY) s ch
  | .writeText text => Along writeTextChar (Below fun curLines maxCharY => curLines > maxCharY) text s
  | .writeUser ch => ch = BACKSPACE ∨ s.userCharIndex = s.maxCharX ∨ s.textbufLoc + s.userCharIndex < s.size
  | .draw => True
  | .startLine => True

lemma terminated_init {screenWidth screenHeight : UInt16} {memory userMemory : ℕ → UInt8}
    (hsize : 0 < (initTerminal screenWidth screenHeight memory userMemory).size) :
    Terminated (initTerminal screenWidth screenHeight memory userMemory) :=
  ⟨hsize, if_pos (by rw [Int.toNat_of_nonneg hsize.le]; exact Int.lt_succ _)⟩

lemma Terminated.scroll {s : Terminal} (h : Terminated s) :
    ∃ t, scrollTextBufferDown s = .ok t ∧ Terminated t ∧ t.size = s.size ∧
      t.textbufLoc = u16Sub s.textbufLoc (firstLine s) := by
  have hsize := h.size
  obtain ⟨k, m, hk, hm, hrun⟩ := scroll_of_zero h.buffer (by omega) (Or.inr (by omega))
  refine ⟨_, hrun, ⟨hsize, ?_⟩, rfl, rfl⟩
  change cleared (moved s.textBuffer (firstLine s) 0 k) k m s.size.toNat = 0
  rw [cleared, if_neg (by omega), moved, if_neg (by omega)]
  exact h.buffer

lemma Terminated.putNext {s : Terminal} (h : Terminated s) (hlt : s.textbufLoc < s.size) (ch : UInt8) :
    ∃ t, putNext s ch = .ok t ∧ Terminated t := by
  refine ⟨_, putNext_of_le hlt.le ch, h.size, ?_⟩
  change Function.update s.textBuffer s.textbufLoc ch s.size.toNat = 0
  rw [Function.update_of_ne (by omega)]
  exact h.buffer

lemma Terminated.print {full : ℕ → ℤ → Bool} {s : Terminal} (h : Terminated s) {ch : UInt8} (hb : Below full s ch) :
    ∃ t, printChar full s ch = .ok t ∧ Terminated t := by
  rw [Below] at hb
  cases hfull : full (countLine s ch) s.maxCharY with
  | true =>
    rw [if_pos hfull] at hb
    have hcounted : Terminated { s with curLines := countLine s ch } := ⟨h.size, h.buffer⟩
    obtain ⟨t, ht, hterm, hsize, hloc⟩ := hcounted.scroll
    rw [printChar_full hfull, ht]
    exact hterm.putNext (by rw [hsize, hloc]; exact hb) ch
  | false =>
    rw [if_neg (by rw [hfull]; exact Bool.false_ne_true)] at hb
    have hcounted : Terminated { s with curLines := countLine s ch } := ⟨h.size, h.buffer⟩
    rw [printChar_room hfull]
    exact hcounted.putNext hb ch

lemma Terminated.call {s : Terminal} (h : Terminated s) {c : Call} (hb : BelowCall s c) :
    ∃ t, c.run s = .ok t ∧ Terminated t := by
  cases c with
  | writeChar ch => exact h.print (show Below (fun curLines maxCharY => curLines ≥ maxCharY) s ch from hb)
  | writeText text => exact foldlM_of_along (fun _ _ hs hbelow => Terminated.print hs hbelow) hb h
  | writeUser ch =>
    have hsize := h.size
    obtain ⟨t, ht⟩ := (writeUserChar_returns_iff s ch).mpr (hb.imp_right (Or.imp_right le_of_lt))
    refine ⟨t, ht, ?_⟩
    rw [writeUserChar] at ht
    split_ifs at ht with hback hfew hfull
    · exact Except.ok.inj ht ▸ h
    · exact Except.ok.inj ht ▸ ⟨h.size, h.buffer⟩
    · exact Except.ok.inj ht ▸ h
    · have hlt : s.textbufLoc + s.userCharIndex < s.size := (hb.resolve_left hback).resolve_left hfull
      obtain ⟨u, hu, hlast⟩ := bind_eq_ok.mp ht
      obtain ⟨-, rfl⟩ := Terminal.put_eq_ok hu
      obtain rfl := Except.ok.inj hlast
      refine ⟨hsize, ?_⟩
      change Function.update s.textBuffer (s.textbufLoc + s.userCharIndex) ch s.size.toNat = 0
      rw [Function.update_of_ne (by omega)]
      exact h.buffer
  | draw => exact ⟨_, rfl, h.size, h.buffer⟩
  | startLine => exact ⟨_, rfl, h.size, h.buffer⟩

/-- Calls whose characters all have their place on the screen never leave the buffer, whatever it holds. -/
theorem calls_inside_of_below (screenWidth screenHeight : UInt16) (memory userMemory : ℕ → UInt8) (calls : List Call)
    (hsize : 0 < (initTerminal screenWidth screenHeight memory userMemory).size)
    (hb : Along Call.run BelowCall calls (initTerminal screenWidth screenHeight memory userMemory)) :
    ∃ t, calls.foldlM Call.run (initTerminal screenWidth screenHeight memory userMemory) = .ok t ∧ Terminated t :=
  foldlM_of_along (fun _ _ hs hbelow => Terminated.call hs hbelow) hb (terminated_init hsize)

end WordOS.Programs
