import WordOS.Kernel.Logf
import WordOS.Programs.TerminalBounds
import WordOS.Programs.TerminalHex

/-! `printf`, and where it and `logf` stop. -/

namespace WordOS.Programs

open Machine Kernel Memory Lib.Loops Lib.Scanning

structure Printf where
  string : ℕ
  params : ℕ
  terminal : Terminal

namespace Printf

variable (p : Printf)

def advance (n : ℕ) : Printf := { p with string := p.string + n }

def shown (terminal : Terminal) (words : ℕ) : Printf := { p with terminal, params := p.params + words }

end Printf

/-- The switch; an option it does not know shows nothing. `stack` is what the arrays of the callees hold. -/
def printfOption (stack : ℕ → ℕ → UInt8) (args : VaList) (ch : UInt8) (p : Printf) : Exec Printf :=
  if ch = 'x'.toUInt8 then do
    let s ← termRenderHex (stack p.string) p.terminal (args.words p.params)
    return p.shown s 1
  else if ch = PERCENT then do
    let s ← writeCharTextBuffer p.terminal PERCENT
    return p.shown s 0
  else if ch = 't'.toUInt8 then do
    let s ← writeCharTextBuffer p.terminal 0xff
    return p.shown s 0
  else if ch = 's'.toUInt8 then do
    let s ← writeTextBuffer p.terminal (args.string p.params)
    return p.shown s 1
  else if ch = 'c'.toUInt8 then do
    let s ← writeCharTextBuffer p.terminal (args.words p.params).toUInt8
    return p.shown s 1
  else .ok p

def printfBody (stack : ℕ → ℕ → UInt8) (args : VaList) (format : ℕ → UInt8) (p : Printf) : Exec (Option Printf) :=
  if format p.string = 0 then .ok none
  else if format p.string = PERCENT then do
    let p ← printfOption stack args (format (p.string + 1)) (p.advance 1)
    return some (p.advance 1)
  else do
    let s ← writeCharTextBuffer p.terminal (format p.string)
    let s := if format p.string = NEWLINE then drawTextBuffer s else s
    return some ((p.shown s 0).advance 1)

/-- The terminal after a format, in at most `n` passes of the loop. -/
def printf (n : ℕ) (stack : ℕ → ℕ → UInt8) (args : VaList) (format : ℕ → UInt8) (s : Terminal) : Exec Terminal := do
  let p ← loop .fuel (printfBody stack args format) n ⟨0, 0, s⟩
  return p.terminal

/-- The last place at which the pass from `i` on looks. -/
def printfLooks (format : ℕ → UInt8) (i : ℕ) : ℕ := if format i = PERCENT then i + 1 else i

inductive PrintfItem : List UInt8 → Prop
  | char {ch : UInt8} (h : ch ≠ PERCENT) : PrintfItem [ch]
  | option (ch : UInt8) : PrintfItem [PERCENT, ch]

def printfStride (rest : List UInt8) : ℕ := if rest.getD 0 0 = PERCENT then 2 else 1

lemma printfStride_item {item : List UInt8} (h : PrintfItem item) (rest : List UInt8) :
    printfStride (item ++ rest) = item.length := by
  cases h with
  | char h => exact if_neg h
  | option ch => rfl

lemma printfStride_pos (rest : List UInt8) : 0 < printfStride rest := by
  rw [printfStride]
  split_ifs
  all_goals decide

lemma printfItem_take {rest : List UInt8} (hne : rest ≠ []) (h : printfStride rest ≤ rest.length) :
    PrintfItem (rest.take (printfStride rest)) := by
  cases rest with
  | nil => exact absurd rfl hne
  | cons a rest =>
    by_cases ha : a = PERCENT
    · subst ha
      cases rest with
      | nil => exact absurd h (by decide)
      | cons b rest => exact .option b
    · simpa [printfStride, ha] using PrintfItem.char ha

section

variable {stack : ℕ → ℕ → UInt8} {args : VaList} {ch : UInt8} {format : ℕ → UInt8} {text : List UInt8} {p q : Printf}

/-- An option shows nothing, a character or a text. -/
lemma printfOption_cases (stack : ℕ → ℕ → UInt8) (args : VaList) (ch : UInt8) (p : Printf) :
    printfOption stack args ch p = .ok p ∨
    (∃ c words, printfOption stack args ch p = writeCharTextBuffer p.terminal c >>= fun s => .ok (p.shown s words)) ∨
    ∃ text words, printfOption stack args ch p = writeTextBuffer p.terminal text >>= fun s => .ok (p.shown s words) := by
  rw [printfOption]
  split_ifs
  · rw [termRenderHex_eq]
    exact Or.inr (Or.inr ⟨_, 1, rfl⟩)
  · exact Or.inr (Or.inl ⟨_, 0, rfl⟩)
  · exact Or.inr (Or.inl ⟨_, 0, rfl⟩)
  · exact Or.inr (Or.inr ⟨_, 1, rfl⟩)
  · exact Or.inr (Or.inl ⟨_, 1, rfl⟩)
  · exact Or.inl rfl

lemma printfOption_string (h : printfOption stack args ch p = .ok q) : q.string = p.string := by
  rcases printfOption_cases stack args ch p with heq | ⟨c, words, heq⟩ | ⟨text, words, heq⟩
  · rw [heq] at h
    rw [Except.ok.inj h]
  all_goals
    rw [heq] at h
    obtain ⟨s, -, hlast⟩ := bind_eq_ok.mp h
    obtain rfl := Except.ok.inj hlast
    rfl

lemma printfBody_eq_ok {r : Option Printf} (h : printfBody stack args format p = .ok r) (hne : format p.string ≠ 0) :
    ∃ q, r = some q ∧ q.string = p.string + if format p.string = PERCENT then 2 else 1 := by
  rw [printfBody, if_neg hne] at h
  split_ifs at h ⊢ with hpercent
  · obtain ⟨q, hq, hlast⟩ := bind_eq_ok.mp h
    refine ⟨_, (Except.ok.inj hlast).symm, ?_⟩
    rw [Printf.advance, printfOption_string hq]
    rfl
  all_goals
    obtain ⟨s, -, hlast⟩ := bind_eq_ok.mp h
    exact ⟨_, (Except.ok.inj hlast).symm, rfl⟩

end

section

variable {I : Terminal → Prop} (hprint : ∀ full s ch t, I s → printChar full s ch = .ok t → I t)
include hprint

lemma writeTextBuffer_keeps {s t : Terminal} {text : List UInt8} (h : I s) (ht : writeTextBuffer s text = .ok t) : I t :=
  foldlM_keeps (fun _ _ _ hu hv => hprint _ _ _ _ hu hv) ht h

lemma printfOption_keeps {stack : ℕ → ℕ → UInt8} {args : VaList} {ch : UInt8} {p q : Printf} (h : I p.terminal)
    (hq : printfOption stack args ch p = .ok q) : I q.terminal := by
  rcases printfOption_cases stack args ch p with heq | ⟨c, words, heq⟩ | ⟨text, words, heq⟩
  · rw [heq] at hq
    exact Except.ok.inj hq ▸ h
  · rw [heq] at hq
    obtain ⟨s, hs, hlast⟩ := bind_eq_ok.mp hq
    obtain rfl := Except.ok.inj hlast
    exact hprint _ _ _ _ h hs
  · rw [heq] at hq
    obtain ⟨s, hs, hlast⟩ := bind_eq_ok.mp hq
    obtain rfl := Except.ok.inj hlast
    exact writeTextBuffer_keeps hprint h hs

lemma printf_keeps (hdraw : ∀ s, I s → I (drawTextBuffer s)) {n : ℕ} {stack : ℕ → ℕ → UInt8} {args : VaList} {format : ℕ → UInt8}
    {s t : Terminal} (h : I s) (ht : printf n stack args format s = .ok t) : I t := by
  obtain ⟨p, hp, hlast⟩ := bind_eq_ok.mp ht
  obtain rfl := Except.ok.inj hlast
  obtain ⟨hreach, -⟩ := loop_reaches hp
  have hstart : I (Printf.mk 0 0 s).terminal := h
  refine hreach.invariant (I := fun p : Printf => I p.terminal) (fun p q hpI hq => ?_) hstart
  by_cases hzero : format p.string = 0
  · rw [printfBody, if_pos hzero] at hq
    cases hq
  · by_cases hpercent : format p.string = PERCENT
    · rw [printfBody, if_neg hzero, if_pos hpercent] at hq
      obtain ⟨r, hr, hnext⟩ := bind_eq_ok.mp hq
      cases hnext
      have hkept := printfOption_keeps (p := p.advance 1) hprint hpI hr
      exact hkept
    · rw [printfBody, if_neg hzero, if_neg hpercent] at hq
      obtain ⟨u, hu, hnext⟩ := bind_eq_ok.mp hq
      cases hnext
      have hkept := hprint _ _ _ _ hpI hu
      dsimp only [Printf.advance, Printf.shown]
      split_ifs
      · exact hdraw _ hkept
      · exact hkept

end

/-- A buffer with a place for every value of `textbuf_loc`. -/
structure Roomy (s : Terminal) : Prop extends Terminated s where
  large : 2 ^ 16 ≤ s.size
  loc : s.textbufLoc < 2 ^ 16

lemma printChar_loc {full : ℕ → ℤ → Bool} {s t : Terminal} {ch : UInt8} (h : printChar full s ch = .ok t) :
    t.textbufLoc < 2 ^ 16 := by
  obtain ⟨-, b, rfl⟩ := printChar_eq_ok h
  exact u16_lt _

namespace Roomy

variable {s : Terminal}

lemma print (h : Roomy s) (full : ℕ → ℤ → Bool) (ch : UInt8) : ∃ t, printChar full s ch = .ok t ∧ Roomy t := by
  have hlarge := h.large
  have hloc := h.loc
  have hbelow : Below full s ch := by
    have hsub : u16Sub s.textbufLoc (firstLine s) < 2 ^ 16 := u16_lt _
    rw [Below]
    split_ifs
    · omega
    · omega
  obtain ⟨t, ht, hterm⟩ := h.toTerminated.print hbelow
  have hc := printChar_counts ht
  refine ⟨t, ht, hterm, ?_, printChar_loc ht⟩
  rw [Terminal.size, hc.maxCharX, hc.maxCharY]
  exact hlarge

lemma writeTextBuffer (h : Roomy s) (text : List UInt8) : ∃ t, writeTextBuffer s text = .ok t ∧ Roomy t := by
  induction text generalizing s with
  | nil => exact ⟨s, rfl, h⟩
  | cons ch text ih =>
    obtain ⟨t, ht, hroom⟩ := h.print (fun curLines maxCharY => curLines > maxCharY) ch
    obtain ⟨u, hu, hlast⟩ := ih hroom
    refine ⟨u, ?_, hlast⟩
    rw [Programs.writeTextBuffer, List.foldlM_cons]
    exact bind_eq_ok.mpr ⟨t, ht, hu⟩

lemma printfOption (stack : ℕ → ℕ → UInt8) (args : VaList) (ch : UInt8) {p : Printf} (h : Roomy p.terminal) :
    ∃ q, printfOption stack args ch p = .ok q ∧ Roomy q.terminal := by
  rcases printfOption_cases stack args ch p with heq | ⟨c, words, heq⟩ | ⟨text, words, heq⟩
  · exact ⟨p, heq, h⟩
  · obtain ⟨t, ht, hroom⟩ := h.print (fun curLines maxCharY => curLines ≥ maxCharY) c
    exact ⟨_, heq.trans (bind_eq_ok.mpr ⟨t, ht, rfl⟩), hroom⟩
  · obtain ⟨t, ht, hroom⟩ := h.writeTextBuffer text
    exact ⟨_, heq.trans (bind_eq_ok.mpr ⟨t, ht, rfl⟩), hroom⟩

lemma printfBody {stack : ℕ → ℕ → UInt8} {args : VaList} {format : ℕ → UInt8} {p : Printf} (h : Roomy p.terminal)
    (hne : format p.string ≠ 0) : ∃ q, printfBody stack args format p = .ok (some q) ∧ Roomy q.terminal := by
  rw [Programs.printfBody, if_neg hne]
  by_cases hpercent : format p.string = PERCENT
  · rw [if_pos hpercent]
    obtain ⟨q, hq, hroom⟩ := printfOption stack args (format (p.string + 1)) (p := p.advance 1) h
    exact ⟨_, bind_eq_ok.mpr ⟨q, hq, rfl⟩, hroom⟩
  · rw [if_neg hpercent]
    obtain ⟨t, ht, hroom⟩ := h.print (fun curLines maxCharY => curLines ≥ maxCharY) (format p.string)
    refine ⟨_, bind_eq_ok.mpr ⟨t, ht, rfl⟩, ?_⟩
    dsimp only [Printf.advance, Printf.shown]
    split_ifs
    · exact ⟨⟨hroom.size, hroom.buffer⟩, hroom.large, hroom.loc⟩
    · exact hroom

end Roomy

lemma exists_roomy : ∃ s, Roomy s := by
  have hsize : (initTerminal 65535 65535 (fun _ => 0) fun _ => 0).size = 8190 * 4093 := rfl
  refine ⟨initTerminal 65535 65535 (fun _ => 0) fun _ => 0, terminated_init ?_, ?_, Nat.two_pow_pos 16⟩
  · rw [hsize]
    decide
  · rw [hsize]
    decide

lemma printf_strides {format : ℕ → UInt8} {text : List UInt8} (h : IsString format text) (stack : ℕ → ℕ → UInt8)
    (args : VaList) : Strides (printfBody stack args format) Printf.string printfStride text where
  leaves hs := by rw [printfBody, if_pos (by rw [hs, h.nul])]
  stays hs hnone := by
    obtain ⟨t, ht, -⟩ := printfBody_eq_ok hnone (h.ne_zero hs)
    cases ht
  moves {p q} hp hq := by
    obtain ⟨_, heq, hmove⟩ := printfBody_eq_ok hq (h.ne_zero hp)
    obtain rfl := Option.some.inj heq
    have h0 : (text.drop p.string).getD 0 0 = format p.string := h.getD_drop (Nat.le_of_lt hp)
    rw [hmove, printfStride, h0]

def PrintfStops (format : ℕ → UInt8) (text : List UInt8) : Prop := ∀ stack args s,
  StopsAt .fuel (printfBody stack args format) Printf.string (printfLooks format) text.length ⟨0, 0, s⟩

lemma printf_stops_iff {format : ℕ → UInt8} {text : List UInt8} (h : IsString format text) :
    PrintfStops format text ↔ Made PrintfItem text := by
  constructor
  · intro hstops
    obtain ⟨s, hroom⟩ := exists_roomy
    have hrun := hstops (fun _ _ => 0) noArgs s
    apply (printf_strides h (fun _ _ => 0) noArgs).made (s := ⟨0, 0, s⟩) (I := fun p => Roomy p.terminal)
    · exact fun p hp hlt => hp.printfBody (h.ne_zero hlt)
    · exact fun rest _ => printfStride_pos rest
    · exact fun rest hne => printfItem_take hne
    · exact hroom
    · intro p hp
      have hlook := hrun.looks p hp
      rw [printfLooks] at hlook
      split_ifs at hlook
      · omega
      · exact hlook
  · intro hmade stack args s
    apply (printf_strides h stack args).stopsAt (fun _ rest hi => printfStride_item hi rest)
    · exact fun rest _ => printfStride_pos rest
    · intro i hi
      rw [printfLooks]
      split_ifs with hpercent
      · exact h.lt_of_ne hi (by rw [hpercent]; decide)
      · exact hi
    · exact hmade
    · rfl

/-- Both stop at the NUL exactly for the formats that do not end in the middle of an option. -/
theorem formats_stop_iff {format : ℕ → UInt8} {text : List UInt8} (h : IsString format text) :
    (LogfStops format text ↔ Made LogfItem text) ∧ (PrintfStops format text ↔ Made PrintfItem text) :=
  ⟨logf_stops_iff h, printf_stops_iff h⟩

/-- A format with an option at its end. -/
theorem formats_stop_iff_value :
    let text := literal "value %d".toList
    (LogfStops (bytesOf text) text ↔ Made LogfItem text) ∧ (PrintfStops (bytesOf text) text ↔ Made PrintfItem text) :=
  formats_stop_iff (isString_bytesOf (by decide))

/-- A percent sign at the end hides the NUL. -/
theorem formats_not_stop : IsString (bytesOf [PERCENT]) [PERCENT] ∧ ¬ LogfStops (bytesOf [PERCENT]) [PERCENT] ∧
    ¬ PrintfStops (bytesOf [PERCENT]) [PERCENT] := by
  have h : IsString (bytesOf [PERCENT]) [PERCENT] := isString_bytesOf (by decide)
  refine ⟨h, fun hstops => ?_, fun hstops => ?_⟩
  · obtain ⟨item, rest, htext, hitem, -⟩ := ((logf_stops_iff h).mp hstops).cases (List.cons_ne_nil _ _)
    cases hitem with
    | char hch => exact hch (List.cons.inj htext).1.symm
    | _ => cases htext
  · obtain ⟨item, rest, htext, hitem, -⟩ := ((printf_stops_iff h).mp hstops).cases (List.cons_ne_nil _ _)
    cases hitem with
    | char hch => exact hch (List.cons.inj htext).1.symm
    | option ch => cases htext

end WordOS.Programs
