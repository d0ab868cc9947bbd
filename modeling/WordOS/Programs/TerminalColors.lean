import WordOS.Programs.Printf
import WordOS.Programs.TerminalDraw

/-! The colour escapes that `printf` leaves in the text, and how `draw_text_buffer` reads them. -/

namespace WordOS.Programs

open Machine Kernel Memory Lib.Loops Lib.Scanning Lib.Reversal

structure PrintfCall where
  passes : ℕ
  stack : ℕ → ℕ → UInt8
  args : VaList
  format : ℕ → UInt8

def PrintfCall.run (s : Terminal) (c : PrintfCall) : Exec Terminal := printf c.passes c.stack c.args c.format s

def Printed (s : Terminal) : Prop := ∃ screenWidth screenHeight memory userMemory calls,
  List.foldlM PrintfCall.run (initTerminal screenWidth screenHeight memory userMemory) calls = .ok s

/-- Every test of the loop is at a place of the text, and so are the colours of an escape, which are in the table. -/
def ColorsInside (beyond : ℕ → UInt32) (s : Terminal) (termFg termBg : UInt32) (n : ℕ) : Prop :=
  ∀ d, Reaches (drawBody beyond s) (drawStart termFg termBg) d → d.printLoc ≤ n ∧
    (s.textBuffer d.printLoc = ESCAPE → d.printLoc + 2 ≤ n ∧
      singleShtoi (s.textBuffer (d.printLoc + 1)) < 16 ∧ singleShtoi (s.textBuffer (d.printLoc + 2)) < 16)

inductive ColorItem : List UInt8 → Prop
  | char {ch : UInt8} (h : ch ≠ ESCAPE) : ColorItem [ch]
  | color {fg bg : UInt8} (hfg : singleShtoi fg < 16) (hbg : singleShtoi bg < 16) : ColorItem [ESCAPE, fg, bg]

/-- The places that a 16-bit index cannot name are as they were. -/
def HighZero (s : Terminal) : Prop := ∀ i : ℕ, 2 ^ 16 ≤ i → i ≤ s.size → s.textBuffer i = 0

structure Untouched (s : Terminal) : Prop where
  loc : s.textbufLoc < 2 ^ 16
  high : HighZero s

section

variable {s t : Terminal} {ch : UInt8} {text : List UInt8}

lemma HighZero.put (h : HighZero s) {i : ℕ} (hi : i < 2 ^ 16 ∨ ch = 0) (ht : s.put i ch = .ok t) : HighZero t := by
  obtain ⟨-, rfl⟩ := Terminal.put_eq_ok ht
  intro j hj hle
  dsimp only
  by_cases hij : j = i
  · rw [hij, Function.update_self]
    exact hi.resolve_left (by omega)
  · rw [Function.update_of_ne hij]
    exact h j hj hle

lemma HighZero.moveChars {e n c c' : ℕ} (h : HighZero s) (hn : n = 0 ∨ ((c + n + e : ℕ) : ℤ) ≤ s.size)
    (ht : moveChars e n c s = .ok (c', t)) : HighZero t := by
  induction n generalizing c s with
  | zero =>
    obtain ⟨-, rfl⟩ := Prod.mk.inj (Except.ok.inj ht)
    exact h
  | succ n ih =>
    rw [Programs.moveChars] at ht
    split at ht
    · obtain ⟨-, rfl⟩ := Prod.mk.inj (Except.ok.inj ht)
      exact h
    · next hne =>
      obtain ⟨u, hu, hrest⟩ := bind_eq_ok.mp ht
      have hc : c < 2 ^ 16 := by
        by_contra hge
        exact hne (h (c + e) (by omega) (by omega))
      have hput := h.put (Or.inl hc) hu
      obtain ⟨-, rfl⟩ := Terminal.put_eq_ok hu
      exact ih hput (Or.inr (by change _ ≤ s.size; omega)) hrest

lemma HighZero.clearChars {n i : ℕ} (h : HighZero s) (ht : clearChars n i s = .ok t) : HighZero t := by
  induction n generalizing i s with
  | zero =>
    rw [Programs.clearChars] at ht
    split at ht
    · exact Except.ok.inj ht ▸ h
    · cases ht
  | succ n ih =>
    rw [Programs.clearChars] at ht
    split at ht
    · exact Except.ok.inj ht ▸ h
    · obtain ⟨u, hu, hrest⟩ := bind_eq_ok.mp ht
      exact ih (h.put (Or.inr rfl) hu) hrest

lemma HighZero.scroll (h : HighZero s) (ht : scrollTextBufferDown s = .ok t) : HighZero t := by
  obtain ⟨⟨c, u⟩, hu, hrest⟩ := bind_eq_ok.mp ht
  obtain ⟨v, hv, hlast⟩ := bind_eq_ok.mp hrest
  obtain rfl := Except.ok.inj hlast
  have hclear := (h.moveChars (by change _ ∨ _ ≤ s.maxCharX * s.maxCharY; omega) hu).clearChars hv
  exact fun i hi hle => hclear i hi hle

lemma Untouched.print (h : Untouched s) {full : ℕ → ℤ → Bool} (ht : printChar full s ch = .ok t) : Untouched t := by
  refine ⟨printChar_loc ht, ?_⟩
  have hcounted : HighZero { s with curLines := countLine s ch } := h.high
  cases hfull : full (countLine s ch) s.maxCharY with
  | true =>
    rw [printChar_full hfull] at ht
    obtain ⟨u, hu, hput⟩ := bind_eq_ok.mp ht
    obtain ⟨v, hv, hlast⟩ := bind_eq_ok.mp hput
    obtain rfl := Except.ok.inj hlast
    have hloc : u.textbufLoc < 2 ^ 16 := by
      obtain ⟨b, rfl⟩ := scroll_eq_ok hu
      exact u16_lt _
    have hhigh := (hcounted.scroll hu).put (Or.inl hloc) hv
    exact fun i hi hle => hhigh i hi hle
  | false =>
    rw [printChar_room hfull] at ht
    obtain ⟨v, hv, hlast⟩ := bind_eq_ok.mp ht
    obtain rfl := Except.ok.inj hlast
    have hhigh := hcounted.put (Or.inl h.loc) hv
    exact fun i hi hle => hhigh i hi hle

lemma Untouched.run (h : Untouched s) {c : PrintfCall} (ht : c.run s = .ok t) : Untouched t :=
  printf_keeps (fun _ _ _ _ hu hv => hu.print hv) (fun _ hu => ⟨hu.loc, hu.high⟩) h ht

lemma Printed.untouched (h : Printed s) : Untouched s := by
  obtain ⟨screenWidth, screenHeight, memory, userMemory, calls, hcalls⟩ := h
  refine foldlM_keeps (I := Untouched) (fun _ _ _ hu hv => hu.run hv) hcalls ⟨Nat.two_pow_pos 16, fun i _ hle => ?_⟩
  exact if_pos (Int.lt_add_one_of_le hle)

lemma Printed.length_le (h : Printed s) (ht : IsString s.textBuffer text) (hn : text.length ≤ s.size) : text.length ≤ 2 ^ 16 := by
  by_contra hlt
  exact ht.ne_zero (not_le.mp hlt) (h.untouched.high _ (le_refl _) (by omega))

end

section

variable {beyond : ℕ → UInt32} {s : Terminal} {termFg termBg : UInt32} {text : List UInt8} {d t : Draw}

def Between (text : List UInt8) (d : Draw) : Prop :=
  ∃ read rest, text = read ++ rest ∧ d.printLoc = read.length ∧ Made ColorItem rest

lemma singleShtoi_nul : ¬ singleShtoi 0 < 16 := by decide

lemma ColorItem.found {item : List UInt8} (h : ColorItem item) {i : ℕ} (hi : Spells s.textBuffer i item) :
    (if s.textBuffer i = ESCAPE then 3 else 1) = item.length ∧ (s.textBuffer i = ESCAPE →
      singleShtoi (s.textBuffer (i + 1)) < 16 ∧ singleShtoi (s.textBuffer (i + 2)) < 16) := by
  cases h with
  | char hch =>
    have h0 := hi 0 (Nat.succ_pos _)
    rw [List.getElem?_cons_zero, Option.some.injEq, Nat.add_zero] at h0
    rw [← h0, if_neg hch]
    exact ⟨rfl, fun he => absurd he hch⟩
  | color hfg hbg =>
    have h0 := hi 0 (Nat.succ_pos _)
    have h1 := hi 1 (Nat.lt_of_sub_pos Nat.two_pos)
    have h2 := hi 2 (Nat.lt_succ_self 2)
    simp only [List.getElem?_cons_zero, List.getElem?_cons_succ, Option.some.injEq, Nat.add_zero] at h0 h1 h2
    rw [← h0, ← h1, ← h2]
    exact ⟨rfl, fun _ => ⟨hfg, hbg⟩⟩

lemma Between.step (ht : IsString s.textBuffer text) (hlen : text.length ≤ 2 ^ 16) (hmade : Made ColorItem text)
    (hd : Between text d) (hpass : drawBody beyond s d = .ok (some t)) : Between text t := by
  obtain ⟨read, rest, htext, hloc, hrest⟩ := hd
  rcases eq_or_ne rest [] with rfl | hne
  · rw [List.append_nil] at htext
    rw [drawBody_nul (by rw [hloc, ← htext, ht.nul])] at hpass
    cases hpass
  · obtain ⟨item, rest, rfl, hitem, hrest⟩ := hrest.cases hne
    have hmove := drawBody_printLoc hpass
    rw [hloc, (hitem.found (htext ▸ ht).part).1] at hmove
    have hsum : text.length = read.length + item.length + rest.length := by
      rw [htext, List.length_append, List.length_append, Nat.add_assoc]
    rcases Nat.lt_or_eq_of_le (show read.length + item.length ≤ 2 ^ 16 by omega) with hlt | heq
    · refine ⟨read ++ item, rest, by rw [htext, List.append_assoc], ?_, hrest⟩
      rw [hmove, u16_of_lt hlt, List.length_append]
    · -- the index starts again from the beginning
      refine ⟨[], text, rfl, ?_, hmade⟩
      rw [hmove, heq]
      rfl

lemma colorsInside_of_made (ht : IsString s.textBuffer text) (hlen : text.length ≤ 2 ^ 16) (hmade : Made ColorItem text) :
    ColorsInside beyond s termFg termBg text.length := by
  intro d hd
  obtain ⟨read, rest, htext, hloc, hrest⟩ := hd.invariant (I := Between text) (fun _ _ hu hv => hu.step ht hlen hmade hv)
    ⟨[], text, rfl, rfl, hmade⟩
  have hsum : text.length = read.length + rest.length := by rw [htext, List.length_append]
  refine ⟨by omega, fun hescape => ?_⟩
  rw [hloc] at hescape ⊢
  rcases eq_or_ne rest [] with rfl | hne
  · rw [List.append_nil] at htext
    rw [← htext, ht.nul] at hescape
    exact absurd hescape (by decide)
  · obtain ⟨item, rest, rfl, hitem, -⟩ := hrest.cases hne
    obtain ⟨hmove, hcolors⟩ := hitem.found (htext ▸ ht).part
    rw [if_pos hescape] at hmove
    rw [List.length_append] at hsum
    exact ⟨by omega, hcolors hescape⟩

lemma made_of_colorsInside (ht : IsString s.textBuffer text) (hn : text.length ≤ s.size) (hlen : text.length ≤ 2 ^ 16)
    (hin : ColorsInside beyond s termFg termBg text.length) (hd : Reaches (drawBody beyond s) (drawStart termFg termBg) d) :
    Made ColorItem (text.drop d.printLoc) := by
  induction hm : text.length - d.printLoc using Nat.strong_induction_on generalizing d with
  | _ m ih =>
    obtain ⟨hle, hcolors⟩ := hin d hd
    rcases Nat.lt_or_eq_of_le hle with hlt | heq
    · -- the next head, and the rest of the text from there on
      have hnext : ∀ k t, drawBody beyond s d = .ok (some t) → t.printLoc = u16 (d.printLoc + k) → 0 < k →
          d.printLoc + k ≤ text.length → Made ColorItem (text.drop (d.printLoc + k)) := by
        intro k t hpass hmove hk hfits
        rcases Nat.lt_or_eq_of_le (hfits.trans hlen) with hsmall | hend
        · rw [u16_of_lt hsmall] at hmove
          have hrest := ih _ (by omega) (hd.tail hpass) rfl
          rwa [hmove] at hrest
        · rw [List.drop_eq_nil_of_le (by omega)]
          exact Made.nil
      have hcons := List.drop_eq_getElem_cons hlt
      rw [← ht.getElem hlt] at hcons
      by_cases hescape : s.textBuffer d.printLoc = ESCAPE
      · obtain ⟨hfits, hfg, hbg⟩ := hcolors hescape
        have hfits' : d.printLoc + 2 < text.length := by
          rcases Nat.lt_or_eq_of_le hfits with hlt' | heq
          · exact hlt'
          · rw [heq, ht.nul] at hbg
            exact absurd hbg singleShtoi_nul
        have hone := List.drop_eq_getElem_cons (Nat.lt_of_succ_lt hfits')
        have htwo := List.drop_eq_getElem_cons hfits'
        rw [← ht.getElem] at hone htwo
        rw [hcons, hone, htwo, hescape]
        have hmade := Made.cons (ColorItem.color hfg hbg) (hnext 3 _ (drawBody_escape hescape) rfl (by omega) hfits')
        exact hmade
      · rw [hcons]
        have hrest : Made ColorItem (text.drop (d.printLoc + 1)) := by
          by_cases hnewline : s.textBuffer d.printLoc = NEWLINE
          · exact hnext 1 _ (drawBody_newline hnewline) rfl Nat.one_pos hlt
          · have hx : s.maxCharX ≠ 0 := by
              intro hx
              rw [Terminal.size, hx, zero_mul] at hn
              omega
            refine hnext 1 _ (drawBody_char ⟨ht.ne_zero hlt, hescape, hnewline⟩ hx) ?_ Nat.one_pos hlt
            dsimp only
            rw [wrapLine_printLoc]
        have hmade := Made.cons (ColorItem.char hescape) hrest
        exact hmade
    · rw [heq, List.drop_length]
      exact Made.nil

end

/-- The escapes are read as they should exactly where each is followed by two digits. -/
theorem colors_inside_iff {s : Terminal} (hs : Printed s) {text : List UInt8} (ht : IsString s.textBuffer text)
    (hn : text.length ≤ s.size) (beyond : ℕ → UInt32) (termFg termBg : UInt32) :
    ColorsInside beyond s termFg termBg text.length ↔ Made ColorItem text :=
  ⟨fun hin => made_of_colorsInside ht hn (hs.length_le ht hn) hin (.refl _),
    colorsInside_of_made ht (hs.length_le ht hn)⟩

lemma exists_printed (format text : List UInt8) (hne : 0 ∉ text)
    (h : ((printf 9 (fun _ _ => 0) noArgs (bytesOf format) (initTerminal 64 64 (fun _ => 0) fun _ => 0)).toOption.map
      fun s => ((List.range (text.length + 1)).map s.textBuffer, s.size)) = some (text ++ [0], 14)) :
    ∃ s, Printed s ∧ IsString s.textBuffer text ∧ s.size = 14 := by
  obtain ⟨s, hs, hobs⟩ := exists_of_toOption_map h
  obtain ⟨htext, hsize⟩ := Prod.mk.inj hobs
  refine ⟨s, ⟨64, 64, fun _ => 0, fun _ => 0, [⟨9, fun _ _ => 0, noArgs, bytesOf format⟩], ?_⟩, isString_of_range htext hne, hsize⟩
  rw [List.foldlM_cons, PrintfCall.run, hs]
  rfl

theorem colors_inside_iff_red : ∃ s, Printed s ∧
    (ColorsInside (fun _ => 0) s 0 0 4 ↔ Made ColorItem [ESCAPE, 50, 48, 65]) := by
  obtain ⟨s, hs, ht, hsize⟩ := exists_printed (literal "%t20A".toList) [ESCAPE, 50, 48, 65] (by decide) (by decide)
  exact ⟨s, hs, colors_inside_iff hs ht (by rw [hsize]; decide) (fun _ => 0) 0 0⟩

/-- A format that ends with the option leaves an escape without digits, which are looked for behind the NUL. -/
theorem colors_not_inside : ∃ s, Printed s ∧ IsString s.textBuffer [ESCAPE] ∧ s.size = 14 ∧
    ¬ ColorsInside (fun _ => 0) s 0 0 1 := by
  obtain ⟨s, hs, ht, hsize⟩ := exists_printed (literal "%t".toList) [ESCAPE] (by decide) (by decide)
  refine ⟨s, hs, ht, hsize, fun hin => ?_⟩
  have hfirst : s.textBuffer 0 = ESCAPE := ht.getElem Nat.one_pos
  have hlook := ((hin (drawStart 0 0) (.refl _)).2 hfirst).1
  exact absurd hlook (by decide)

end WordOS.Programs
