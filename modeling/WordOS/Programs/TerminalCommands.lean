import WordOS.Lib.Loops
import WordOS.Memory.Strings
import WordOS.Programs.TerminalInput
import Mathlib.Data.List.TakeWhile

/-! `parse_user_chars`: the first word of the line, and the command that it names. -/

namespace WordOS.Programs

open Machine Memory Lib.Loops Lib.LineEditing Lib.Reversal

def SPACE : UInt8 := 32

/-- The value of an expression that is stored in a `char`. -/
def int8 (x : ℤ) : ℤ := (x + 128) % 256 - 128

/-- The variables of the loop over the word. -/
structure WordScan where
  parseIndex : ℤ
  command : ℕ → UInt8

/-- A read of `user_chars`, which has `max_char_x + 1` bytes. -/
def getUserChar (s : Terminal) (i : ℤ) : Exec UInt8 := if 0 ≤ i ∧ i ≤ s.maxCharX then .ok (s.userChars i.toNat) else .error .fault

/-- A write to `command`, which has `max_char_x` bytes. -/
def setCommand (s : Terminal) (command : ℕ → UInt8) (i : ℤ) (ch : UInt8) : Exec (ℕ → UInt8) :=
  if 0 ≤ i ∧ i < s.maxCharX then .ok (Function.update command i.toNat ch) else .error .fault

def scanBody (s : Terminal) (w : WordScan) : Exec (Option WordScan) := do
  let ch ← getUserChar s w.parseIndex
  if ch = 0 then return none
  else if ch = SPACE then return none
  else if ch = NEWLINE then return none
  else do
    let command ← setCommand s w.command (w.parseIndex - 2) ch
    return some ⟨int8 (w.parseIndex + 1), command⟩

def scanStart : WordScan := ⟨2, fun _ => 0⟩

def scanWord (s : Terminal) : Exec WordScan := loop .fuel (scanBody s) 128 scanStart

def VERSION : List UInt8 := literal "version".toList
def WOOF : List UInt8 := literal "woof".toList
def SHUTDOWN : List UInt8 := literal "shutdown".toList

/-- What a command does; an unknown one is printed. -/
inductive Action
  | version
  | woof
  | shutdown
  | unknown (command : List UInt8)
  deriving DecidableEq, Repr

def chooseAction (command : ℕ → UInt8) (maxCharX : ℕ) : Action :=
  if strcmp (bytesOf VERSION) command VERSION.length ≠ 0 then .version
  else if strcmp (bytesOf WOOF) command WOOF.length ≠ 0 then .woof
  else if strcmp (bytesOf SHUTDOWN) command SHUTDOWN.length ≠ 0 then .shutdown
  else .unknown (cString command maxCharX)

def parseUserChars (s : Terminal) : Exec Action := do
  let w ← scanWord s
  return chooseAction w.command s.maxCharX.toNat

/-- The characters at which a word ends. -/
def EndsWord (ch : UInt8) : Prop := ch = 0 ∨ ch = SPACE ∨ ch = NEWLINE

instance : DecidablePred EndsWord := fun _ => inferInstanceAs (Decidable (_ ∨ _ ∨ _))

def firstWord (text : List UInt8) : List UInt8 := text.takeWhile fun ch => ¬ EndsWord ch

/-- The line starts with `word`. -/
structure WordAt (s : Terminal) (word : List UInt8) : Prop where
  typed : Spells s.userChars 2 word
  inner : ∀ ch ∈ word, ¬ EndsWord ch
  stop : EndsWord (s.userChars (2 + word.length))
  fits : ((2 + word.length : ℕ) : ℤ) ≤ s.maxCharX

lemma firstWord_append (text : List UInt8) : ∃ rest, text = firstWord text ++ rest ∧ ∀ ch ∈ rest.head?, EndsWord ch := by
  refine ⟨text.dropWhile fun ch => ¬ EndsWord ch, List.takeWhile_append_dropWhile.symm, fun ch hch => ?_⟩
  have hh := List.head?_dropWhile_not (fun ch => decide ¬ EndsWord ch) text
  rw [Option.mem_def] at hch
  rw [hch] at hh
  simpa using hh

lemma LineHolds.wordAt {chars : List UInt8} {s : Terminal} (h : LineHolds chars s) :
    WordAt s (firstWord (edited BACKSPACE (lineWidth s) chars)) := by
  obtain ⟨rest, htext, hhead⟩ := firstWord_append (edited BACKSPACE (lineWidth s) chars)
  have hindex := h.index
  have hbounds := h.bounds
  have htyped := h.typed
  rw [htext] at htyped
  have hlen := congrArg List.length htext
  rw [List.length_append] at hlen
  refine ⟨htyped.left, fun ch hch => ?_, ?_, by omega⟩
  · simpa using List.mem_takeWhile_imp hch
  · cases rest with
    | nil =>
      -- behind the text stands a blank, or nothing yet
      rw [List.length_nil] at hlen
      rw [show 2 + (firstWord (edited BACKSPACE (lineWidth s) chars)).length = s.userCharIndex by omega]
      rcases Nat.lt_or_ge s.userCharIndex (2 + longest BACKSPACE (lineWidth s) chars) with hlt | hge
      · exact Or.inr (Or.inl (h.erased _ (le_refl _) hlt))
      · exact Or.inl (h.blank _ hge hbounds.2)
    | cons ch rest =>
      have hch := htyped.right 0 (Nat.succ_pos _)
      rw [List.getElem?_cons_zero, Nat.add_zero, Option.some.injEq] at hch
      rw [← hch]
      exact hhead ch rfl

section

variable {s : Terminal} {word : List UInt8} {w : WordScan}

def Scanned (word : List UInt8) (k : ℕ) (w : WordScan) : Prop :=
  w.parseIndex = ((2 + k : ℕ) : ℤ) ∧ Spells w.command 0 (word.take k) ∧ ∀ i ≥ k, w.command i = 0

lemma scanned_start (word : List UInt8) : Scanned word 0 scanStart :=
  ⟨rfl, fun i hi => by rw [List.take_zero] at hi; exact absurd hi (Nat.not_lt_zero i), fun _ _ => rfl⟩

lemma scan_pass (h : WordAt s word) {k : ℕ} (hk : k < word.length) (hw : Scanned word k w) :
    scanBody s w = .ok (some ⟨int8 ((3 + k : ℕ) : ℤ), Function.update w.command k word[k]⟩) := by
  have hfits := h.fits
  have hch : s.userChars (2 + k) = word[k] := by
    have hh := h.typed k hk
    rw [List.getElem?_eq_getElem hk, Option.some.injEq] at hh
    exact hh.symm
  have hinner := h.inner _ (List.getElem_mem hk)
  simp only [EndsWord, not_or] at hinner
  have hget : getUserChar s w.parseIndex = .ok word[k] := by
    rw [getUserChar, hw.1, if_pos (by omega), Int.toNat_natCast, hch]
  have hset : setCommand s w.command (w.parseIndex - 2) word[k] = .ok (Function.update w.command k word[k]) := by
    rw [setCommand, hw.1, if_pos (by omega), show (((2 + k : ℕ) : ℤ) - 2).toNat = k by omega]
  rw [scanBody, hget, ok_bind, if_neg hinner.1, if_neg hinner.2.1, if_neg hinner.2.2, hset, hw.1]
  rw [show ((2 + k : ℕ) : ℤ) + 1 = ((3 + k : ℕ) : ℤ) by omega]
  rfl

lemma scan_leave (h : WordAt s word) (hw : Scanned word word.length w) : scanBody s w = .ok none := by
  have hget : getUserChar s w.parseIndex = .ok (s.userChars (2 + word.length)) := by
    have hfits := h.fits
    rw [getUserChar, hw.1, if_pos (by omega), Int.toNat_natCast]
  rw [scanBody, hget, ok_bind]
  split_ifs with hzero hspace hnewline
  · rfl
  · rfl
  · rfl
  · exact absurd h.stop (not_or.mpr ⟨hzero, not_or.mpr ⟨hspace, hnewline⟩⟩)

lemma Scanned.step {k : ℕ} (hk : k < word.length) (h125 : k < 125) (hw : Scanned word k w) :
    Scanned word (k + 1) ⟨int8 ((3 + k : ℕ) : ℤ), Function.update w.command k word[k]⟩ := by
  refine ⟨?_, ?_, fun i hi => ?_⟩
  · dsimp only [int8]
    omega
  · have hlen : (word.take k).length = k := by
      rw [List.length_take]
      omega
    have hsnoc := hw.2.1.snoc (a := word[k])
    rw [hlen, Nat.zero_add] at hsnoc
    rw [List.take_add_one, List.getElem?_eq_getElem hk]
    exact hsnoc
  · exact (Function.update_of_ne (by omega) ..).trans (hw.2.2 i (by omega))

/-- What holds at a test, and how much of the word is left. -/
def Scanning (word : List UInt8) (w : WordScan) : Prop := ∃ k ≤ word.length, Scanned word k w

def ahead (word : List UInt8) (w : WordScan) : ℕ := (2 + word.length - w.parseIndex).toNat

lemma Scanning.step (h : WordAt s word) (h125 : word.length ≤ 125) (hw : Scanning word w) :
    scanBody s w = .ok none ∨ ∃ t, scanBody s w = .ok (some t) ∧ Scanning word t ∧ ahead word t < ahead word w := by
  obtain ⟨k, hk, hw⟩ := hw
  rcases Nat.lt_or_eq_of_le hk with hlt | rfl
  · have hnext := hw.step hlt (by omega)
    refine Or.inr ⟨_, scan_pass h hlt hw, ⟨k + 1, hlt, hnext⟩, ?_⟩
    rw [ahead, ahead, hnext.1, hw.1]
    omega
  · exact Or.inl (scan_leave h hw)

lemma scanning_start (word : List UInt8) : Scanning word scanStart := ⟨0, Nat.zero_le _, scanned_start word⟩

lemma scan_run (h : WordAt s word) (h125 : word.length ≤ 125) : ∃ w, scanWord s = .ok w ∧ Scanned word word.length w := by
  have hfuel : ahead word scanStart < 128 := by
    dsimp only [ahead, scanStart]
    omega
  obtain ⟨w, hloop, ⟨k, hk, hw⟩, hleave⟩ := loop_returns (fun _ => Scanning.step h h125) (scanning_start word) hfuel
  rcases Nat.lt_or_eq_of_le hk with hlt | rfl
  · rw [scan_pass h hlt hw] at hleave
    cases hleave
  · exact ⟨w, hloop, hw⟩

/-- After 126 characters the index is negative. -/
lemma scan_wraps (h : WordAt s word) (h126 : 126 ≤ word.length) : ∃ command, Reaches (scanBody s) scanStart ⟨-128, command⟩ := by
  have hreach : ∀ k ≤ 125, ∃ w, Reaches (scanBody s) scanStart w ∧ Scanned word k w := by
    intro k hk
    induction k with
    | zero => exact ⟨scanStart, .refl _, scanned_start word⟩
    | succ k ih =>
      obtain ⟨w, hr, hw⟩ := ih (by omega)
      exact ⟨_, hr.tail (scan_pass h (by omega) hw), hw.step (by omega) (by omega)⟩
  obtain ⟨w, hr, hw⟩ := hreach 125 (le_refl _)
  exact ⟨_, hr.tail (scan_pass h (by omega) hw)⟩

lemma scan_fault (command : ℕ → UInt8) : scanBody s ⟨-128, command⟩ = .error .fault := by
  rw [scanBody, getUserChar, if_neg fun h => absurd (show (0 : ℤ) ≤ -128 from h.1) (by decide)]
  rfl

lemma scanWord_iff (h : WordAt s word) : (∃ w, scanWord s = .ok w) ↔ word.length ≤ 125 := by
  constructor
  · rintro ⟨w, hw⟩
    by_contra hlen
    obtain ⟨command, hreach⟩ := scan_wraps h (by omega)
    exact loop_ne_ok hreach (scan_fault command) hw
  · intro h125
    obtain ⟨w, hw, -⟩ := scan_run h h125
    exact ⟨w, hw⟩

end

/-- The word scan ends, and what it reads and writes is the line and the command. -/
structure ScansInside (s : Terminal) : Prop where
  ends : ∃ w, scanWord s = .ok w
  reads : ∀ w, Reaches (scanBody s) scanStart w → 2 ≤ w.parseIndex ∧ w.parseIndex ≤ s.maxCharX
  writes : ∀ w t, Reaches (scanBody s) scanStart w → scanBody s w = .ok (some t) →
    0 ≤ w.parseIndex - 2 ∧ w.parseIndex - 2 < s.maxCharX

lemma scansInside_iff {s : Terminal} {word : List UInt8} (h : WordAt s word) : ScansInside s ↔ word.length ≤ 125 := by
  constructor
  · exact fun hin => (scanWord_iff h).mp hin.ends
  · intro h125
    have hheads : ∀ w, Reaches (scanBody s) scanStart w → 2 ≤ w.parseIndex ∧ w.parseIndex ≤ s.maxCharX := by
      intro w hw
      have hfits := h.fits
      obtain ⟨k, hk, hindex, -⟩ := hw.invariant (I := Scanning word) (fun u v hu hv => by
        rcases hu.step h h125 with hnone | ⟨v', hv', hnext, -⟩
        · rw [hnone] at hv
          cases hv
        · rw [hv'] at hv
          cases hv
          exact hnext) (scanning_start word)
      rw [hindex]
      omega
    refine ⟨(scanWord_iff h).mpr h125, hheads, fun w u hw _ => ?_⟩
    have hin := hheads w hw
    omega

/-- The word scan is right exactly for words that a signed index can pass. -/
theorem scan_inside_iff {s t : Terminal} (hs : FreshLine s) (h3 : 3 ≤ s.maxCharX) {chars : List UInt8}
    (ht : chars.foldlM writeUserChar s = .ok t) :
    ScansInside t ↔ (firstWord (edited BACKSPACE (lineWidth s) chars)).length ≤ 125 := by
  obtain ⟨hline, hsame⟩ := (hs.holds (by omega)).run hs.width ht
  have hword := hline.wordAt
  rw [lineWidth, hsame, ← lineWidth] at hword
  exact scansInside_iff hword

/-- The terminal of a screen that is 1040 pixels wide, with a line of 127 characters. -/
def wideTerminal : Terminal := initTerminal 1040 64 (fun _ => 0) fun _ => 0

lemma wideTerminal_fresh : FreshLine wideTerminal := ⟨1040, 64, fun _ => 0, fun _ => 0, _, _, _, rfl⟩

lemma wideTerminal_types (chars : List UInt8) : ∃ t, chars.foldlM writeUserChar wideTerminal = .ok t :=
  (wideTerminal_fresh.holds (by decide)).returns wideTerminal_fresh.width (by decide) chars

theorem scan_inside_iff_woof : ∃ t, WOOF.foldlM writeUserChar wideTerminal = .ok t ∧
    (ScansInside t ↔ (firstWord (edited BACKSPACE (lineWidth wideTerminal) WOOF)).length ≤ 125) := by
  obtain ⟨t, ht⟩ := wideTerminal_types WOOF
  exact ⟨t, ht, scan_inside_iff wideTerminal_fresh (by decide) ht⟩

/-- A word of 126 characters takes the index to -128. -/
theorem scan_not_inside : FreshLine wideTerminal ∧ 3 ≤ wideTerminal.maxCharX ∧
    ∃ t, (List.replicate 126 97).foldlM writeUserChar wideTerminal = .ok t ∧ ¬ ScansInside t := by
  obtain ⟨t, ht⟩ := wideTerminal_types (List.replicate 126 97)
  refine ⟨wideTerminal_fresh, by decide, t, ht, ?_⟩
  obtain ⟨hline, hsame⟩ := (wideTerminal_fresh.holds (by decide)).run wideTerminal_fresh.width ht
  have hwidth : lineWidth t = 127 := by
    rw [lineWidth, hsame]
    rfl
  have hword := hline.wordAt
  have hall : ∀ c ∈ List.replicate 126 (97 : UInt8), c = 97 := fun c hc => List.eq_of_mem_replicate hc
  have hlen : (List.replicate 126 (97 : UInt8)).length = 126 := List.length_replicate
  have hfirst : firstWord (List.replicate 126 97) = List.replicate 126 97 :=
    List.takeWhile_eq_self_iff.mpr fun c hc => by rw [hall c hc]; decide
  rw [hwidth, edited_of_fits (fun c hc => by rw [hall c hc]; decide) (by omega)] at hword
  rw [scansInside_iff hword, hfirst, hlen]
  decide

end WordOS.Programs
