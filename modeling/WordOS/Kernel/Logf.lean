import WordOS.Kernel.SerialNumerals
import WordOS.Lib.Scanning

/-! `logf`: a format that is read up to its NUL, and arguments that are taken as it asks for them. -/

namespace WordOS.Kernel

open Machine Memory Lib.Loops Lib.Scanning Lib.Reversal

def PERCENT : UInt8 := 37

/-- The words that were pushed, and the text at an address. -/
structure VaList where
  words : ℕ → UInt32
  strings : UInt32 → List UInt8

namespace VaList

variable (args : VaList) (params : ℕ)

def uint64 : UInt64 := (args.words params).toUInt64 + (args.words (params + 1)).toUInt64 <<< 32

/-- `va_arg` for a number, which is of 64 bits after an `l`. -/
def number (long : Bool) : UInt64 := if long then args.uint64 params else (args.words params).toUInt64

def numberWords (long : Bool) : ℕ := if long then 2 else 1

def string : List UInt8 := args.strings (args.words params)

end VaList

structure Logf where
  string : ℕ
  params : ℕ
  sent : List UInt8

namespace Logf

variable (s : Logf)

def advance (n : ℕ) : Logf := { s with string := s.string + n }

lemma advance_string (n : ℕ) : (s.advance n).string = s.string + n := rfl

def send (text : List UInt8) (words : ℕ) : Logf := { s with sent := s.sent ++ text, params := s.params + words }

end Logf

/-- The two switches, which differ in the numbers. `stack` is what the arrays of the callees hold. -/
def logOption (stack : ℕ → ℕ → UInt8) (args : VaList) (long : Bool) (ch : UInt8) (s : Logf) : Exec Logf :=
  if ch = 'x'.toUInt8 then do
    let text ← printHex (stack s.string) (args.number s.params long)
    return s.send text (VaList.numberWords long)
  else if ch = PERCENT then .ok (s.send [ch] 0)
  else if ch = 't'.toUInt8 then .ok (s.advance 2)
  else if ch = 'd'.toUInt8 then do
    let text ← logIntegerToSerial (stack s.string) (args.number s.params long)
    return s.send text (VaList.numberWords long)
  else if ch = 's'.toUInt8 then .ok (s.send (args.string s.params) 1)
  else if ch = 'c'.toUInt8 then .ok (s.send [(args.words s.params).toUInt8] 1)
  else .ok (s.send (literal "UNKNOWN OPTION %".toList ++ [ch] ++ literal "!\n".toList) 0)

def logfBody (stack : ℕ → ℕ → UInt8) (args : VaList) (format : ℕ → UInt8) (s : Logf) : Exec (Option Logf) :=
  if format s.string = 0 then .ok none
  else if format s.string = PERCENT then do
    let s := s.advance 1
    let long := format s.string = 'l'.toUInt8
    let s := if long then s.advance 1 else s
    let s ← logOption stack args long (format s.string) s
    return some (s.advance 1)
  else .ok (some ((s.send [format s.string] 0).advance 1))

/-- What is sent for a format, in at most `n` passes of the loop. -/
def logf (n : ℕ) (stack : ℕ → ℕ → UInt8) (args : VaList) (format : ℕ → UInt8) : Exec (List UInt8) := do
  let s ← loop .fuel (logfBody stack args format) n ⟨0, 0, []⟩
  return s.sent

example : logf 9 (fun _ _ => 7) ⟨fun i => if i = 0 then 0x1f else 42, fun _ => []⟩ (bytesOf (literal "a%x, %d!".toList)) =
    .ok (literal "a0x1f, 42!".toList) := by rfl

/-- The last place at which the pass from `i` on looks. -/
def logfLooks (format : ℕ → UInt8) (i : ℕ) : ℕ :=
  if format i = PERCENT then if format (i + 1) = 'l'.toUInt8 then i + 2 else i + 1 else i

inductive LogfItem : List UInt8 → Prop
  | char {ch : UInt8} (h : ch ≠ PERCENT) : LogfItem [ch]
  | option {ch : UInt8} (hl : ch ≠ 'l'.toUInt8) (ht : ch ≠ 't'.toUInt8) : LogfItem [PERCENT, ch]
  | skip (ch ch' : UInt8) : LogfItem [PERCENT, 't'.toUInt8, ch, ch']
  | long {ch : UInt8} (ht : ch ≠ 't'.toUInt8) : LogfItem [PERCENT, 'l'.toUInt8, ch]
  | longSkip (ch ch' : UInt8) : LogfItem [PERCENT, 'l'.toUInt8, 't'.toUInt8, ch, ch']

/-- How far an option moves the cursor by itself. -/
def skipped (ch : UInt8) : ℕ := if ch = 't'.toUInt8 then 2 else 0

def logfStride (rest : List UInt8) : ℕ :=
  if rest.getD 0 0 = PERCENT then
    if rest.getD 1 0 = 'l'.toUInt8 then 3 + skipped (rest.getD 2 0) else 2 + skipped (rest.getD 1 0)
  else 1

lemma logfStride_item {item : List UInt8} (h : LogfItem item) (rest : List UInt8) :
    logfStride (item ++ rest) = item.length := by
  cases h with
  | char h => exact if_neg h
  | option hl ht => simp [logfStride, skipped, hl, ht]
  | skip ch ch' => rfl
  | long ht => simp [logfStride, skipped, ht]
  | longSkip ch ch' => rfl

lemma logfStride_pos (rest : List UInt8) : 0 < logfStride rest := by
  rw [logfStride]
  split_ifs
  all_goals omega

lemma logfItem_take {rest : List UInt8} (hne : rest ≠ []) (h : logfStride rest ≤ rest.length) :
    LogfItem (rest.take (logfStride rest)) := by
  cases rest with
  | nil => exact absurd rfl hne
  | cons a rest =>
    by_cases ha : a = PERCENT
    · subst ha
      cases rest with
      | nil => exact absurd h (by decide)
      | cons b rest =>
        by_cases hl : b = 'l'.toUInt8
        · subst hl
          cases rest with
          | nil => exact absurd h (by decide)
          | cons c rest =>
            by_cases hc : c = 't'.toUInt8
            · subst hc
              match rest with
              | [] => exact absurd h (by decide)
              | [d] => exact absurd h (by simp [logfStride, skipped])
              | d :: e :: rest => exact .longSkip d e
            · simpa [logfStride, skipped, hc] using LogfItem.long hc
        · by_cases ht : b = 't'.toUInt8
          · subst ht
            match rest with
            | [] => exact absurd h (by decide)
            | [d] => exact absurd h (by simp [logfStride, skipped, hl])
            | d :: e :: rest => exact .skip d e
          · simpa [logfStride, skipped, hl, ht] using LogfItem.option hl ht
    · simpa [logfStride, ha] using LogfItem.char ha

section

variable {stack : ℕ → ℕ → UInt8} {args : VaList} {long : Bool} {ch : UInt8} {format : ℕ → UInt8} {s t : Logf}

lemma logOption_string (h : logOption stack args long ch s = .ok t) : t.string = s.string + skipped ch := by
  rw [logOption] at h
  rw [skipped]
  split_ifs at h with hx hpercent ht hd hs hc
  · obtain ⟨text, -, hlast⟩ := bind_eq_ok.mp h
    obtain rfl := Except.ok.inj hlast
    rw [if_neg (by rw [hx]; decide)]
    rfl
  · obtain rfl := Except.ok.inj h
    rw [if_neg (by rw [hpercent]; decide)]
    rfl
  · obtain rfl := Except.ok.inj h
    rw [if_pos ht]
    rfl
  · obtain ⟨text, -, hlast⟩ := bind_eq_ok.mp h
    obtain rfl := Except.ok.inj hlast
    rw [if_neg ht]
    rfl
  all_goals
    obtain rfl := Except.ok.inj h
    rw [if_neg ht]
    rfl

lemma logfBody_percent (h : format s.string = PERCENT) : logfBody stack args format s =
    if format (s.string + 1) = 'l'.toUInt8 then do
      let s ← logOption stack args true (format (s.string + 2)) (s.advance 2)
      return some (s.advance 1)
    else do
      let s ← logOption stack args false (format (s.string + 1)) (s.advance 1)
      return some (s.advance 1) := by
  have hne : format s.string ≠ 0 := by rw [h]; decide
  rw [logfBody, if_neg hne, if_pos h]
  by_cases hl : format (s.string + 1) = 'l'.toUInt8
  · rw [if_pos hl]
    simp [Logf.advance, hl]
  · rw [if_neg hl]
    simp [Logf.advance, hl]

lemma logfBody_eq_ok {r : Option Logf} (h : logfBody stack args format s = .ok r) (hne : format s.string ≠ 0) :
    ∃ t, r = some t ∧ t.string = s.string +
      if format s.string = PERCENT then
        if format (s.string + 1) = 'l'.toUInt8 then 3 + skipped (format (s.string + 2)) else 2 + skipped (format (s.string + 1))
      else 1 := by
  by_cases hpercent : format s.string = PERCENT
  · rw [logfBody_percent hpercent] at h
    rw [if_pos hpercent]
    split_ifs at h ⊢ with hl
    · obtain ⟨u, hu, hlast⟩ := bind_eq_ok.mp h
      refine ⟨_, (Except.ok.inj hlast).symm, ?_⟩
      rw [Logf.advance_string, logOption_string hu, Logf.advance_string]
      omega
    · obtain ⟨u, hu, hlast⟩ := bind_eq_ok.mp h
      refine ⟨_, (Except.ok.inj hlast).symm, ?_⟩
      rw [Logf.advance_string, logOption_string hu, Logf.advance_string]
      omega
  · rw [logfBody, if_neg hne, if_neg hpercent] at h
    rw [if_neg hpercent]
    exact ⟨_, (Except.ok.inj h).symm, rfl⟩

def noArgs : VaList := ⟨fun _ => 0, fun _ => []⟩

lemma logOption_returns (stack : ℕ → ℕ → UInt8) (long : Bool) (ch : UInt8) (s : Logf) :
    ∃ t, logOption stack noArgs long ch s = .ok t := by
  have hzero : noArgs.number s.params long = 0 := by
    cases long
    · rfl
    · change (0 : UInt32).toUInt64 + (0 : UInt32).toUInt64 <<< 32 = 0
      decide
  rw [logOption]
  split_ifs
  · have hx : printHex (stack s.string) 0 = .ok (literal ['0', 'x', '0']) := if_pos rfl
    rw [hzero, hx]
    exact ⟨_, rfl⟩
  · exact ⟨_, rfl⟩
  · exact ⟨_, rfl⟩
  · rw [hzero, logInteger_numeral (by decide), ok_bind]
    exact ⟨_, rfl⟩
  all_goals exact ⟨_, rfl⟩

lemma logfBody_returns {text : List UInt8} (h : IsString format text) (hs : s.string < text.length) :
    ∃ t, logfBody stack noArgs format s = .ok (some t) := by
  by_cases hpercent : format s.string = PERCENT
  · rw [logfBody_percent hpercent]
    split_ifs
    · obtain ⟨t, ht⟩ := logOption_returns stack true (format (s.string + 2)) (s.advance 2)
      rw [ht]
      exact ⟨_, rfl⟩
    · obtain ⟨t, ht⟩ := logOption_returns stack false (format (s.string + 1)) (s.advance 1)
      rw [ht]
      exact ⟨_, rfl⟩
  · rw [logfBody, if_neg (h.ne_zero hs), if_neg hpercent]
    exact ⟨_, rfl⟩

lemma logf_strides {text : List UInt8} (h : IsString format text) (stack : ℕ → ℕ → UInt8) (args : VaList) :
    Strides (logfBody stack args format) Logf.string logfStride text where
  leaves hs := by rw [logfBody, if_pos (by rw [hs, h.nul])]
  stays hs hnone := by
    obtain ⟨t, ht, -⟩ := logfBody_eq_ok hnone (h.ne_zero hs)
    cases ht
  moves {s t} hs ht := by
    obtain ⟨_, heq, hmove⟩ := logfBody_eq_ok ht (h.ne_zero hs)
    obtain rfl := Option.some.inj heq
    have h0 : (text.drop s.string).getD 0 0 = format s.string := h.getD_drop (Nat.le_of_lt hs)
    rw [hmove, logfStride, h0]
    by_cases hpercent : format s.string = PERCENT
    · rw [if_pos hpercent, if_pos hpercent, h.getD_drop hs]
      by_cases hl : format (s.string + 1) = 'l'.toUInt8
      · rw [if_pos hl, if_pos hl, h.getD_drop (h.lt_of_ne hs (by rw [hl]; decide))]
      · rw [if_neg hl, if_neg hl]
    · rw [if_neg hpercent, if_neg hpercent]

lemma logfLooks_le {text : List UInt8} (h : IsString format text) {i : ℕ} (hi : i ≤ text.length) :
    logfLooks format i ≤ text.length := by
  rw [logfLooks]
  split_ifs with hpercent hl
  · exact h.lt_of_ne (h.lt_of_ne hi (by rw [hpercent]; decide)) (by rw [hl]; decide)
  · exact h.lt_of_ne hi (by rw [hpercent]; decide)
  · exact hi

lemma le_logfLooks (format : ℕ → UInt8) (i : ℕ) : i ≤ logfLooks format i := by
  rw [logfLooks]
  split_ifs
  all_goals omega

def LogfStops (format : ℕ → UInt8) (text : List UInt8) : Prop := ∀ stack args,
  StopsAt .fuel (logfBody stack args format) Logf.string (logfLooks format) text.length ⟨0, 0, []⟩

lemma logf_stops_iff {text : List UInt8} (h : IsString format text) : LogfStops format text ↔ Made LogfItem text := by
  constructor
  · intro hstops
    have hrun := hstops (fun _ _ => 0) noArgs
    apply (logf_strides h (fun _ _ => 0) noArgs).made (s := ⟨0, 0, []⟩) (I := fun _ => True)
    · intro s _ hs
      obtain ⟨t, ht⟩ := logfBody_returns h hs
      exact ⟨t, ht, trivial⟩
    · exact fun rest _ => logfStride_pos rest
    · exact fun rest hne => logfItem_take hne
    · trivial
    · exact fun t ht => le_trans (le_logfLooks format t.string) (hrun.looks t ht)
  · intro hmade stack args
    apply (logf_strides h stack args).stopsAt (fun _ rest hi => logfStride_item hi rest)
    · exact fun rest _ => logfStride_pos rest
    · exact fun i hi => logfLooks_le h hi
    · exact hmade
    · rfl

end

end WordOS.Kernel
