import WordOS.Programs.TerminalCalls

/-! `write_text_buffer` against `write_char_text_buffer`, whose tests for a full screen differ. -/

namespace WordOS.Programs

open Machine

/-- No character of the text is written while the count of lines, its own newline included, is `max_char_y`. -/
def TestsAgree (maxCharY : ℤ) : ℕ → List UInt8 → Prop
  | _, [] => True
  | curLines, ch :: text =>
    let counted := if ch = NEWLINE then u16 (curLines + 1) else curLines
    counted ≠ maxCharY ∧ TestsAgree maxCharY (if maxCharY < counted then u16Sub counted 1 else counted) text

lemma writeTextChar_eq {s : Terminal} {ch : UInt8} (h : countLine s ch ≠ s.maxCharY) :
    writeTextChar s ch = writeCharTextBuffer s ch := by
  rcases lt_or_gt_of_ne h with hlt | hgt
  · rw [writeTextChar, writeCharTextBuffer, printChar_room (decide_eq_false (by omega)),
      printChar_room (decide_eq_false (by omega))]
  · rw [writeTextChar, writeCharTextBuffer, printChar_full (decide_eq_true (by omega)),
      printChar_full (decide_eq_true (by omega))]

lemma writeTextBuffer_eq {s : Terminal} {text : List UInt8} (h : TestsAgree s.maxCharY s.curLines text) :
    writeTextBuffer s text = text.foldlM writeCharTextBuffer s := by
  induction text generalizing s with
  | nil => rfl
  | cons ch text ih =>
    obtain ⟨hne, hrest⟩ := h
    rw [writeTextBuffer, List.foldlM_cons, List.foldlM_cons, ← writeTextChar_eq hne]
    cases ht : writeTextChar s ch with
    | error e => rfl
    | ok t =>
      have hc := writeTextChar_counts ht
      rw [ok_bind, ok_bind]
      apply ih
      rw [hc.maxCharY, hc.curLines]
      exact hrest

/-- Where the count is at most `max_char_y`, the tests agree on a text that ends with fewer lines, and on newlines alone. -/
lemma testsAgree_iff {maxCharY : ℤ} (hy : maxCharY < 2 ^ 15) {curLines : ℕ} (hc : curLines ≤ maxCharY)
    (text : List UInt8) :
    TestsAgree maxCharY curLines text ↔
      text = [] ∨ (curLines + text.count NEWLINE : ℕ) < maxCharY ∨ curLines = maxCharY ∧ ∀ ch ∈ text, ch = NEWLINE := by
  induction text generalizing curLines with
  | nil => exact iff_of_true trivial (Or.inl rfl)
  | cons ch text ih =>
    simp only [TestsAgree, List.cons_ne_nil, false_or, List.forall_mem_cons]
    by_cases hnl : ch = NEWLINE
    · subst hnl
      rw [if_pos rfl, u16_of_lt (by omega), List.count_cons_self]
      by_cases hfull : (curLines : ℤ) = maxCharY
      · rw [if_pos (by omega), u16Sub_of_le (by omega) (by omega), Nat.add_sub_cancel, ih hc]
        constructor
        · rintro ⟨-, rfl | hlt | ⟨-, hall⟩⟩
          · exact Or.inr ⟨hfull, rfl, fun c hmem => absurd hmem List.not_mem_nil⟩
          · omega
          · exact Or.inr ⟨hfull, rfl, hall⟩
        · rintro (hlt | ⟨-, -, hall⟩)
          · omega
          · exact ⟨by omega, Or.inr (Or.inr ⟨hfull, hall⟩)⟩
      · rw [if_neg (by omega), ih (by omega)]
        constructor
        · rintro ⟨hne, rfl | hlt | ⟨heq, -⟩⟩
          · exact Or.inl (by rw [List.count_nil]; omega)
          · exact Or.inl (by omega)
          · exact absurd heq hne
        · rintro (hlt | ⟨heq, -⟩)
          · exact ⟨by omega, Or.inr (Or.inl (by omega))⟩
          · exact absurd heq hfull
    · rw [if_neg hnl, if_neg (by omega), List.count_cons_of_ne hnl, ih hc]
      constructor
      · rintro ⟨hne, rfl | hlt | ⟨heq, -⟩⟩
        · exact Or.inl (by rw [List.count_nil]; omega)
        · exact Or.inl hlt
        · exact absurd heq hne
      · rintro (hlt | ⟨-, heq, -⟩)
        · exact ⟨by omega, Or.inr (Or.inl hlt)⟩
        · exact absurd heq hnl

lemma testsAgree_of_neg {maxCharY : ℤ} (hy : maxCharY < 0) (curLines : ℕ) (text : List UInt8) :
    TestsAgree maxCharY curLines text := by
  induction text generalizing curLines with
  | nil => trivial
  | cons ch text ih => exact ⟨by omega, ih _⟩

/-- A screen of no lines with something else than a newline on it has no place for another character. -/
structure Stuck (s : Terminal) : Prop where
  maxCharY : s.maxCharY = 0
  loc : s.textbufLoc = 1
  buffer : s.textBuffer 0 ≠ NEWLINE

lemma endFirstLine_ne_one {textBuffer : ℕ → UInt8} (h : textBuffer 0 ≠ NEWLINE) (n : ℕ) :
    endFirstLine textBuffer n 0 ≠ 1 := by
  -- behind the first character the search answers `0` or a larger index
  have hlater : ∀ m i, endFirstLine textBuffer m i = 0 ∨ i < endFirstLine textBuffer m i := by
    intro m
    induction m with
    | zero => exact fun i => Or.inl rfl
    | succ m ih =>
      intro i
      rw [endFirstLine]
      split
      · exact Or.inr (Nat.lt_succ_self i)
      · exact (ih (i + 1)).imp_right (lt_trans (Nat.lt_succ_self i))
  cases n with
  | zero => exact Nat.zero_ne_one
  | succ n =>
    rw [endFirstLine, if_neg h]
    have := hlater n (0 + 1)
    omega

lemma Stuck.printChar {s : Terminal} (h : Stuck s) (hx : s.maxCharX < 2 ^ 15) (full : ℕ → ℤ → Bool) (ch : UInt8)
    (t : Terminal) : printChar full s ch ≠ .ok t := by
  intro ht
  have hfirst := endFirstLine_ne_one h.buffer s.maxCharX.toNat
  have hle := endFirstLine_le s.textBuffer s.maxCharX.toNat 0
  obtain ⟨hlt, -⟩ := printChar_eq_ok ht
  rw [landing, Terminal.size, h.maxCharY, mul_zero, zero_add] at hlt
  split_ifs at hlt
  · simp only [h.loc, firstLine, u16Sub, u16] at hlt
    omega
  · simp only [h.loc] at hlt
    omega

lemma stuck_of_print {full : ℕ → ℤ → Bool} {s t : Terminal} {ch : UInt8} (hy : s.maxCharY = 0) (hch : ch ≠ NEWLINE)
    (h : printChar full s ch = .ok t) : Stuck t := by
  obtain ⟨hlt, b, rfl⟩ := printChar_eq_ok h
  rw [Terminal.size, hy, mul_zero] at hlt
  have hloc : (landing full s ch).1 = 0 := by omega
  refine ⟨hy, ?_, ?_⟩
  · dsimp only
    rw [hloc, u16_of_lt (by omega)]
  · dsimp only
    rw [hloc, Function.update_self]
    exact hch

/-- What holds in every state the terminal reaches: the lines that are counted fit, or nothing more does. -/
structure Reached (s : Terminal) : Prop where
  width : s.maxCharX < 2 ^ 15
  height : s.maxCharY < 2 ^ 15
  counted : 0 ≤ s.maxCharY → s.curLines ≤ s.maxCharY ∨ Stuck s

lemma Reached.print {full : ℕ → ℤ → Bool} (hlt : ∀ (c : ℕ) (y : ℤ), y < c → full c y = true)
    (hge : ∀ (c : ℕ) (y : ℤ), full c y = true → y ≤ c) {s t : Terminal} {ch : UInt8} (h : Reached s) (ht : printChar full s ch = .ok t) : Reached t := by
  have hc := printChar_counts ht
  refine ⟨hc.maxCharX.trans_lt h.width, hc.maxCharY.trans_lt h.height, fun hy => ?_⟩
  rw [hc.maxCharY] at hy
  have hheight := h.height
  rcases h.counted hy with hle | hstuck
  · by_cases hnl : ch = NEWLINE
    · subst hnl
      rw [hc.maxCharY, hc.curLines, countLine_newline, u16_of_lt (by omega)]
      left
      split_ifs with hf
      · rw [u16Sub_of_le (by omega) (by omega)]
        omega
      · by_contra hgt
        exact hf (hlt _ _ (by omega))
    · rcases hy.lt_or_eq with hpos | hzero
      · rw [hc.maxCharY, hc.curLines, countLine_of_ne s hnl]
        left
        split_ifs with hf
        · have := hge _ _ hf
          rw [u16Sub_of_le (by omega) (by omega)]
          omega
        · exact hle
      · exact Or.inr (stuck_of_print hzero.symm hnl ht)
  · exact absurd ht (hstuck.printChar h.width full ch t)

lemma Reached.writeTextChar {s t : Terminal} {ch : UInt8} (h : Reached s) (ht : writeTextChar s ch = .ok t) : Reached t :=
  h.print (fun _ _ hlt => decide_eq_true hlt) (fun _ _ hf => (of_decide_eq_true hf).le) ht

lemma Reached.writeChar {s t : Terminal} {ch : UInt8} (h : Reached s) (ht : writeCharTextBuffer s ch = .ok t) : Reached t :=
  h.print (fun _ _ hlt => decide_eq_true hlt.le) (fun _ _ hf => of_decide_eq_true hf) ht

lemma Reached.call {s t : Terminal} (h : Reached s) (c : Call) (ht : c.run s = .ok t) : Reached t := by
  cases c with
  | writeChar ch => exact h.writeChar ht
  | writeText text => exact foldlM_keeps (fun _ _ _ hu hv => Reached.writeTextChar hu hv) ht h
  | writeUser ch =>
    have hc := writeUserChar_counts ht
    refine ⟨hc.maxCharX.trans_lt h.width, hc.maxCharY.trans_lt h.height, fun hy => ?_⟩
    rw [hc.maxCharY] at hy
    rcases h.counted hy with hle | hstuck
    · rw [hc.maxCharY, hc.curLines]
      exact Or.inl hle
    · -- the echo would lie behind the only byte
      right
      change writeUserChar s ch = .ok t at ht
      rw [writeUserChar] at ht
      split_ifs at ht
      · exact Except.ok.inj ht ▸ hstuck
      · exact Except.ok.inj ht ▸ ⟨hstuck.maxCharY, hstuck.loc, hstuck.buffer⟩
      · exact Except.ok.inj ht ▸ hstuck
      · obtain ⟨u, hu, -⟩ := bind_eq_ok.mp ht
        obtain ⟨hlt, -⟩ := Terminal.put_eq_ok hu
        have hsize : s.size = 0 := by rw [Terminal.size, hstuck.maxCharY, mul_zero]
        change ((s.textbufLoc + s.userCharIndex : ℕ) : ℤ) < s.size + 1 at hlt
        rw [hsize, hstuck.loc] at hlt
        omega
  | draw =>
    obtain rfl := Except.ok.inj ht
    exact ⟨h.width, h.height, fun hy => (h.counted hy).imp_right fun hs => ⟨hs.maxCharY, hs.loc, hs.buffer⟩⟩
  | startLine =>
    obtain rfl := Except.ok.inj ht
    exact ⟨h.width, h.height, fun hy => (h.counted hy).imp_right fun hs => ⟨hs.maxCharY, hs.loc, hs.buffer⟩⟩

lemma reached_init (screenWidth screenHeight : UInt16) (memory userMemory : ℕ → UInt8) :
    Reached (initTerminal screenWidth screenHeight memory userMemory) := by
  have hw := screenWidth.toNat_lt
  have hh := screenHeight.toNat_lt
  refine ⟨?_, ?_, fun hy => Or.inl hy⟩
  · change ((screenWidth.toNat / 8 : ℕ) : ℤ) - 1 < _
    omega
  · change ((screenHeight.toNat / 16 : ℕ) : ℤ) - 2 < _
    omega

lemma reached_of_calls {screenWidth screenHeight : UInt16} {memory userMemory : ℕ → UInt8} {calls : List Call} {s : Terminal}
    (h : calls.foldlM Call.run (initTerminal screenWidth screenHeight memory userMemory) = .ok s) : Reached s :=
  foldlM_keeps (fun _ c _ hu hv => Reached.call hu c hv) h (reached_init screenWidth screenHeight memory userMemory)

/-- Once one version has scrolled and the other has not, the counts stay one apart. -/
lemma apart_run {maxCharY : ℕ} (hpos : 0 < maxCharY) (hy : maxCharY < 2 ^ 15) {a b t u : Terminal} {text : List UInt8}
    (haY : a.maxCharY = maxCharY) (hbY : b.maxCharY = maxCharY) (ha : a.curLines = maxCharY)
    (hb : b.curLines + 1 = maxCharY) (ht : text.foldlM writeTextChar a = .ok t)
    (hu : text.foldlM writeCharTextBuffer b = .ok u) : t.curLines ≠ u.curLines := by
  induction text generalizing a b with
  | nil =>
    rw [← Except.ok.inj ht, ← Except.ok.inj hu]
    omega
  | cons ch text ih =>
    rw [List.foldlM_cons] at ht hu
    obtain ⟨a', ha', htrest⟩ := bind_eq_ok.mp ht
    obtain ⟨b', hb', hurest⟩ := bind_eq_ok.mp hu
    have hca := writeTextChar_counts ha'
    have hcb := writeChar_counts hb'
    refine ih (hca.maxCharY.trans haY) (hcb.maxCharY.trans hbY) ?_ ?_ htrest hurest
    · rw [hca.curLines, haY]
      by_cases hnl : ch = NEWLINE
      · rw [hnl, countLine_newline, ha, u16_of_lt (by omega), if_pos (by omega), u16Sub_of_le (by omega) (by omega)]
        omega
      · rw [countLine_of_ne a hnl, ha, if_neg (by omega)]
    · rw [hcb.curLines, hbY]
      by_cases hnl : ch = NEWLINE
      · rw [hnl, countLine_newline, hb, u16_of_lt (by omega), if_pos (by omega), u16Sub_of_le (by omega) (by omega)]
        omega
      · rw [countLine_of_ne b hnl, if_neg (by omega)]
        exact hb

lemma counts_apart {s t u : Terminal} {ch : UInt8} {text : List UInt8} (h : Reached s) (hle : s.curLines ≤ s.maxCharY)
    (hc : countLine s ch = s.maxCharY) (ht : (ch :: text).foldlM writeTextChar s = .ok t)
    (hu : (ch :: text).foldlM writeCharTextBuffer s = .ok u) : t.curLines ≠ u.curLines := by
  have hheight := h.height
  rw [List.foldlM_cons] at ht hu
  obtain ⟨a, ha, htrest⟩ := bind_eq_ok.mp ht
  obtain ⟨b, hb, hurest⟩ := bind_eq_ok.mp hu
  have hca := writeTextChar_counts ha
  have hcb := writeChar_counts hb
  have haLines := hca.curLines
  have hbLines := hcb.curLines
  rw [if_neg (by omega)] at haLines
  rw [if_pos (by omega)] at hbLines
  rcases Nat.eq_zero_or_pos (countLine s ch) with hzero | hpos
  · -- no line fits: the text version is stuck behind the character it has written
    have hy : s.maxCharY = 0 := by omega
    have hch : ch ≠ NEWLINE := by
      rintro rfl
      rw [countLine_newline, u16_of_lt (by omega)] at hzero
      omega
    have hstuck : Stuck a := stuck_of_print hy hch ha
    cases text with
    | nil =>
      rw [← Except.ok.inj htrest, ← Except.ok.inj hurest, haLines, hbLines, hzero]
      decide
    | cons ch' text =>
      rw [List.foldlM_cons] at htrest
      obtain ⟨a', ha', -⟩ := bind_eq_ok.mp htrest
      exact absurd ha' (hstuck.printChar (hca.maxCharX.trans_lt h.width) _ ch' a')
  · refine apart_run hpos (by omega) ?_ ?_ haLines ?_ htrest hurest
    · rw [hca.maxCharY, hc]
    · rw [hcb.maxCharY, hc]
    · rw [hbLines, u16Sub_of_le (by omega) (by omega)]
      omega

lemma testsAgree_of_same {s t u : Terminal} {text : List UInt8} (h : Reached s) (hle : s.curLines ≤ s.maxCharY)
    (ht : text.foldlM writeTextChar s = .ok t) (hu : text.foldlM writeCharTextBuffer s = .ok u)
    (htu : t.curLines = u.curLines) : TestsAgree s.maxCharY s.curLines text := by
  induction text generalizing s with
  | nil => trivial
  | cons ch text ih =>
    by_cases hc : countLine s ch = s.maxCharY
    · exact absurd htu (counts_apart h hle hc ht hu)
    · refine ⟨hc, ?_⟩
      rw [List.foldlM_cons] at ht hu
      rw [← writeTextChar_eq hc] at hu
      obtain ⟨a, ha, htrest⟩ := bind_eq_ok.mp ht
      rw [ha] at hu
      have hca := writeTextChar_counts ha
      have hcur : a.curLines ≤ a.maxCharY := by
        have hheight := h.height
        rw [hca.curLines, hca.maxCharY]
        split_ifs with hf
        · by_cases hnl : ch = NEWLINE
          · rw [hnl, countLine_newline, u16_of_lt (by omega), u16Sub_of_le (by omega) (by omega)]
            omega
          · rw [countLine_of_ne s hnl] at hf
            omega
        · omega
      have hrec := ih (h.writeTextChar ha) hcur htrest hu
      rw [hca.curLines, hca.maxCharY] at hrec
      exact hrec

/-- In every state the calls reach, a text leaves the terminal as its characters one by one do, just where its newlines keep
the count below `max_char_y`, or the count is there and only newlines follow, or no count is. -/
theorem writeTextBuffer_same_iff (screenWidth screenHeight : UInt16) (memory userMemory : ℕ → UInt8) (calls : List Call)
    (s : Terminal) (hs : calls.foldlM Call.run (initTerminal screenWidth screenHeight memory userMemory) = .ok s)
    (text : List UInt8) (hin : ∃ t, writeTextBuffer s text = .ok t ∨ text.foldlM writeCharTextBuffer s = .ok t) :
    (∃ t u, writeTextBuffer s text = .ok t ∧ text.foldlM writeCharTextBuffer s = .ok u ∧
      t.textBuffer = u.textBuffer ∧ t.textbufLoc = u.textbufLoc ∧ t.curLines = u.curLines) ↔
    text = [] ∨ s.maxCharY < 0 ∨ (s.curLines + text.count NEWLINE : ℕ) < s.maxCharY ∨
      s.curLines = s.maxCharY ∧ ∀ ch ∈ text, ch = NEWLINE := by
  have hr := reached_of_calls hs
  have hequal : writeTextBuffer s text = text.foldlM writeCharTextBuffer s →
      ∃ t u, writeTextBuffer s text = .ok t ∧ text.foldlM writeCharTextBuffer s = .ok u ∧
        t.textBuffer = u.textBuffer ∧ t.textbufLoc = u.textbufLoc ∧ t.curLines = u.curLines := by
    intro heq
    obtain ⟨t, ht⟩ := hin
    rw [← heq, or_self] at ht
    exact ⟨t, t, ht, heq ▸ ht, rfl, rfl, rfl⟩
  by_cases hy : s.maxCharY < 0
  · exact iff_of_true (hequal (writeTextBuffer_eq (testsAgree_of_neg hy s.curLines text))) (Or.inr (Or.inl hy))
  · rw [not_lt] at hy
    rcases hr.counted hy with hle | hstuck
    · have hagree := testsAgree_iff hr.height hle text
      constructor
      · rintro ⟨t, u, ht, hu, -, -, htu⟩
        exact (hagree.mp (testsAgree_of_same hr hle ht hu htu)).imp_right Or.inr
      · intro hcond
        refine hequal (writeTextBuffer_eq (hagree.mpr (hcond.imp_right fun h => h.resolve_left (not_lt.mpr hy))))
    · cases text with
      | nil => exact iff_of_true (hequal rfl) (Or.inl rfl)
      | cons ch text =>
        -- neither version can write the first character
        obtain ⟨t, ht | ht⟩ := hin
        · rw [writeTextBuffer, List.foldlM_cons] at ht
          obtain ⟨a, ha, -⟩ := bind_eq_ok.mp ht
          exact absurd ha (hstuck.printChar hr.width _ ch a)
        · rw [List.foldlM_cons] at ht
          obtain ⟨a, ha, -⟩ := bind_eq_ok.mp ht
          exact absurd ha (hstuck.printChar hr.width _ ch a)

/-- What can be compared of two terminals. -/
def observed (s : Terminal) : ℕ × ℕ × UInt8 := (s.curLines, s.textbufLoc, s.textBuffer 0)

/-- On a screen of five by three characters, a text with one newline, after a line that is still open. -/
theorem writeTextBuffer_same_iff_open :
    ∃ s t u, [Call.writeChar 97].foldlM Call.run (initTerminal 48 80 (fun _ => 1) (fun _ => 1)) = .ok s ∧
      writeTextBuffer s [98, 10, 99] = .ok t ∧ ([98, 10, 99] : List UInt8).foldlM writeCharTextBuffer s = .ok u ∧
      t.textBuffer = u.textBuffer ∧ t.textbufLoc = u.textbufLoc ∧ t.curLines = u.curLines := by
  have hrun : (([Call.writeChar 97].foldlM Call.run (initTerminal 48 80 (fun _ => 1) (fun _ => 1)) >>= fun s =>
      writeTextBuffer s [98, 10, 99] >>= fun t => .ok (s, t)).toOption.map
        fun p => (p.1.curLines, p.1.maxCharY)) = some (0, 3) := by decide
  obtain ⟨⟨s, t⟩, hst, hcur⟩ := exists_of_toOption_map hrun
  obtain ⟨s, hs, hrest⟩ := bind_eq_ok.mp hst
  obtain ⟨t, ht, heq⟩ := bind_eq_ok.mp hrest
  obtain ⟨rfl, rfl⟩ := Prod.mk.inj (Except.ok.inj heq)
  obtain ⟨hcur, hy⟩ := Prod.mk.inj hcur
  have hcond : (s.curLines + ([98, 10, 99] : List UInt8).count NEWLINE : ℕ) < s.maxCharY := by
    dsimp only at hcur hy
    rw [hcur, hy]
    decide
  obtain ⟨t', u, htu⟩ := (writeTextBuffer_same_iff 48 80 (fun _ => 1) (fun _ => 1) [Call.writeChar 97] s hs
    [98, 10, 99] ⟨t, Or.inl ht⟩).mpr (Or.inr (Or.inr (Or.inl hcond)))
  exact ⟨s, t', u, hs, htu⟩

/-- Three lines on a screen of three: one version keeps the first and the other does not. -/
theorem writeTextBuffer_drifts :
    ∃ t u, writeTextBuffer (initTerminal 48 80 (fun _ => 1) (fun _ => 1)) [97, 10, 98, 10, 99, 10] = .ok t ∧
      ([97, 10, 98, 10, 99, 10] : List UInt8).foldlM writeCharTextBuffer
        (initTerminal 48 80 (fun _ => 1) (fun _ => 1)) = .ok u ∧
      observed t = (3, 6, 97) ∧ observed u = (2, 4, 98) := by
  obtain ⟨t, ht, hto⟩ := exists_of_toOption_map (g := observed) (c := (3, 6, 97)) (x :=
    writeTextBuffer (initTerminal 48 80 (fun _ => 1) (fun _ => 1)) [97, 10, 98, 10, 99, 10]) (by decide)
  obtain ⟨u, hu, huo⟩ := exists_of_toOption_map (g := observed) (c := (2, 4, 98)) (x :=
    ([97, 10, 98, 10, 99, 10] : List UInt8).foldlM writeCharTextBuffer (initTerminal 48 80 (fun _ => 1) (fun _ => 1)))
    (by decide)
  exact ⟨t, u, ht, hu, hto, huo⟩

end WordOS.Programs
