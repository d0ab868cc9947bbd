import WordOS.Programs.TerminalScroll
import Mathlib.Data.List.DropRight
import Mathlib.Data.List.GetD
import Mathlib.Data.List.Induction

/-! The terminal shows the last lines of what was printed. -/

namespace WordOS.Programs

open Machine

/-- A text as the lines it has completed, each with its newline, and the one it has begun. -/
structure Lines where
  completed : List (List UInt8)
  unfinished : List UInt8

namespace Lines

def add (l : Lines) (ch : UInt8) : Lines :=
  if ch = NEWLINE then { completed := l.completed ++ [l.unfinished ++ [ch]], unfinished := [] }
  else { l with unfinished := l.unfinished ++ [ch] }

def last (l : Lines) (k : ℕ) : List UInt8 := (l.completed.rtake k).flatten ++ l.unfinished

/-- No line is longer than the screen is wide. -/
structure Fits (l : Lines) (x : ℕ) : Prop where
  completed : ∀ line ∈ l.completed, line.length ≤ x
  unfinished : l.unfinished.length ≤ x

/-- Every completed line ends with its only newline. -/
structure Ended (l : Lines) : Prop where
  completed : ∀ line ∈ l.completed, ∃ start, line = start ++ [NEWLINE] ∧ NEWLINE ∉ start
  unfinished : NEWLINE ∉ l.unfinished

lemma add_newline (l : Lines) :
    l.add NEWLINE = { completed := l.completed ++ [l.unfinished ++ [NEWLINE]], unfinished := [] } := if_pos rfl

lemma add_of_ne {l : Lines} {ch : UInt8} (h : ch ≠ NEWLINE) : l.add ch = { l with unfinished := l.unfinished ++ [ch] } :=
  if_neg h

lemma last_nil (k : ℕ) : (Lines.mk [] []).last k = [] := by
  simp only [last, List.rtake_nil, List.flatten_nil, List.append_nil]

lemma Fits.of_add {l : Lines} {ch : UInt8} {x : ℕ} (h : (l.add ch).Fits x) : l.Fits x := by
  by_cases hch : ch = NEWLINE
  · subst hch
    rw [add_newline] at h
    have hlast := h.completed (l.unfinished ++ [NEWLINE]) (List.mem_append_right _ (List.mem_singleton_self _))
    rw [List.length_append] at hlast
    exact ⟨fun line hline => h.completed line (List.mem_append_left _ hline), by omega⟩
  · rw [add_of_ne hch] at h
    have hlast := h.unfinished
    rw [List.length_append] at hlast
    exact ⟨h.completed, by omega⟩

lemma Ended.add {l : Lines} (h : l.Ended) (ch : UInt8) : (l.add ch).Ended := by
  by_cases hch : ch = NEWLINE
  · subst hch
    rw [add_newline]
    refine ⟨fun line hline => ?_, List.not_mem_nil⟩
    rcases List.mem_append.mp hline with hold | hnew
    · exact h.completed line hold
    · exact ⟨l.unfinished, List.mem_singleton.mp hnew, h.unfinished⟩
  · rw [add_of_ne hch]
    refine ⟨h.completed, fun hmem => ?_⟩
    rcases List.mem_append.mp hmem with hold | hnew
    · exact h.unfinished hold
    · exact hch (List.mem_singleton.mp hnew).symm

lemma last_add_of_ne {l : Lines} {ch : UInt8} (h : ch ≠ NEWLINE) (k : ℕ) : (l.add ch).last k = l.last k ++ [ch] := by
  rw [add_of_ne h]
  exact (List.append_assoc _ _ _).symm

lemma last_add_newline (l : Lines) (k : ℕ) : (l.add NEWLINE).last (k + 1) = l.last k ++ [NEWLINE] := by
  rw [add_newline]
  simp only [last, List.rtake_concat_succ, List.flatten_append, List.flatten_singleton, List.append_nil,
    List.append_assoc]

lemma last_of_length_le {l : Lines} {k : ℕ} (h : l.completed.length ≤ k) : l.last (k + 1) = l.last k := by
  simp only [last, List.rtake]
  rw [Nat.sub_eq_zero_of_le h, Nat.sub_eq_zero_of_le (by omega)]

lemma last_succ {l : Lines} {k : ℕ} (h : k < l.completed.length) :
    ∃ first ∈ l.completed, l.last (k + 1) = first ++ l.last k := by
  have hi : l.completed.length - (k + 1) < l.completed.length := by omega
  refine ⟨l.completed[l.completed.length - (k + 1)], List.getElem_mem hi, ?_⟩
  simp only [last, List.rtake]
  rw [List.drop_eq_getElem_cons hi, List.flatten_cons, List.append_assoc,
    show l.completed.length - (k + 1) + 1 = l.completed.length - k by omega]

lemma Fits.length_last {l : Lines} {x : ℕ} (h : l.Fits x) (k : ℕ) :
    (l.last k).length ≤ k * x + l.unfinished.length := by
  induction k with
  | zero => simp [last]
  | succ k ih =>
    by_cases hk : k < l.completed.length
    · obtain ⟨first, hfirst, hlast⟩ := last_succ hk
      have := h.completed first hfirst
      rw [hlast, List.length_append, Nat.succ_mul]
      omega
    · rw [last_of_length_le (not_lt.mp hk), Nat.succ_mul]
      omega

lemma Ended.count_line {l : Lines} (h : l.Ended) {line : List UInt8} (hline : line ∈ l.completed) :
    line.count NEWLINE = 1 := by
  obtain ⟨start, rfl, hstart⟩ := h.completed line hline
  rw [List.count_append, List.count_eq_zero_of_not_mem hstart, List.count_singleton_self]

lemma Ended.count_last {l : Lines} (h : l.Ended) (k : ℕ) : (l.last k).count NEWLINE = min l.completed.length k := by
  induction k with
  | zero => simp [last, List.count_eq_zero_of_not_mem h.unfinished]
  | succ k ih =>
    by_cases hk : k < l.completed.length
    · obtain ⟨first, hfirst, hlast⟩ := last_succ hk
      rw [hlast, List.count_append, h.count_line hfirst, ih]
      omega
    · rw [last_of_length_le (not_lt.mp hk), ih]
      omega

end Lines

def lines (text : List UInt8) : Lines := text.foldl Lines.add ⟨[], []⟩

lemma lines_append (text : List UInt8) (ch : UInt8) : lines (text ++ [ch]) = (lines text).add ch := by
  rw [lines, List.foldl_append]
  rfl

lemma lines_ended (text : List UInt8) : (lines text).Ended := by
  induction text using List.reverseRecOn with
  | nil => exact ⟨fun line hline => absurd hline List.not_mem_nil, List.not_mem_nil⟩
  | append_singleton text ch ih =>
    rw [lines_append]
    exact ih.add ch

/-- The buffer holds `text` and zeros behind it, on a screen of 16-bit size. -/
structure Shows (s : Terminal) (text : List UInt8) : Prop where
  small : s.size < 2 ^ 16
  length : text.length ≤ s.size
  nonzero : ∀ ch ∈ text, ch ≠ 0
  buffer : ∀ i : ℕ, i ≤ s.size → s.textBuffer i = text.getD i 0
  loc : s.textbufLoc = text.length

lemma Shows.nonzero_at {s : Terminal} {text : List UInt8} (h : Shows s text) {i : ℕ} (hi : i < text.length) :
    s.textBuffer i ≠ 0 := by
  have hs := h.length
  rw [h.buffer i (by omega), List.getD_eq_getElem text 0 hi]
  exact h.nonzero _ (List.getElem_mem hi)

lemma Shows.zero_at {s : Terminal} {text : List UInt8} (h : Shows s text) {i : ℕ} (hi : text.length ≤ i)
    (hs : i ≤ s.size) : s.textBuffer i = 0 := by
  rw [h.buffer i hs, List.getD_eq_default text 0 hi]

lemma Shows.firstLine {s : Terminal} {start rest : List UInt8} (h : Shows s (start ++ [NEWLINE] ++ rest))
    (hn : NEWLINE ∉ start) (hx : start.length < s.maxCharX) : firstLine s = start.length + 1 := by
  have hs := h.length
  simp only [List.length_append, List.length_singleton] at hs
  have hb : ∀ j < start.length, s.textBuffer (0 + j) ≠ NEWLINE := by
    intro j hj hj'
    rw [Nat.zero_add, h.buffer j (by omega), List.append_assoc, List.getD_append start _ 0 j hj,
      List.getD_eq_getElem start 0 hj] at hj'
    exact hn (hj' ▸ List.getElem_mem hj)
  have he : s.textBuffer (0 + start.length) = NEWLINE := by
    rw [Nat.zero_add, h.buffer _ (by omega), List.append_assoc, List.getD_append_right start _ 0 _ (le_refl _),
      Nat.sub_self]
    rfl
  rw [Programs.firstLine, endFirstLine_eq hb he (by omega), Nat.zero_add]

lemma Shows.scroll {s : Terminal} {start rest : List UInt8} (h : Shows s (start ++ [NEWLINE] ++ rest))
    (hn : NEWLINE ∉ start) (hx : start.length < s.maxCharX) :
    ∃ t, scrollTextBufferDown s = .ok t ∧ Shows t rest ∧ t.maxCharX = s.maxCharX ∧ t.maxCharY = s.maxCharY ∧
      t.curLines = u16Sub s.curLines 1 := by
  have hf := h.firstLine hn hx
  have hs := h.length
  have hlen : (start ++ [NEWLINE] ++ rest).length = start.length + 1 + rest.length := by
    rw [List.length_append, List.length_append, List.length_singleton]
  rw [hlen] at hs
  have hsmall := h.small
  have hrun := scroll_run (s := s) (k := rest.length) (m := start.length + 1)
    (by rw [hf]; omega) (fun j hj => h.nonzero_at (by rw [hf, hlen]; omega))
    (fun hlt => h.zero_at (by rw [hf, hlen]; omega) (by rw [hf] at hlt ⊢; omega))
    (fun j hj => h.nonzero_at (by rw [hlen]; omega)) (h.zero_at (by rw [hlen]; omega) (by omega)) (by omega)
  rw [hf] at hrun
  refine ⟨_, hrun, ?_, rfl, rfl, rfl⟩
  refine ⟨hsmall, ?_, fun ch hch => h.nonzero ch (List.mem_append_right _ hch), ?_, ?_⟩
  · exact le_trans (by omega) hs
  · intro i hi
    replace hi : (i : ℤ) ≤ s.size := hi
    dsimp only [cleared, moved]
    by_cases hr : i < rest.length
    · -- a moved character
      rw [if_neg (by omega), if_pos (by omega), h.buffer _ (by omega),
        List.getD_append_right _ rest 0 _ (by rw [List.length_append, List.length_singleton]; omega)]
      rw [List.length_append, List.length_singleton, Nat.add_sub_cancel]
    · rw [List.getD_eq_default rest 0 (not_lt.mp hr)]
      by_cases hc : i < rest.length + (start.length + 1)
      · exact if_pos ⟨not_lt.mp hr, hc⟩
      · rw [if_neg (by omega), if_neg (by omega)]
        exact h.zero_at (by rw [hlen]; omega) hi
  · dsimp only
    rw [h.loc, hlen, u16Sub_of_le (by omega) (by omega)]
    omega

lemma Shows.putNext {s : Terminal} {text : List UInt8} (h : Shows s text) {ch : UInt8} (hch : ch ≠ 0)
    (hs : (text ++ [ch]).length ≤ s.size) :
    ∃ t, putNext s ch = .ok t ∧ Shows t (text ++ [ch]) ∧ t.maxCharX = s.maxCharX ∧ t.maxCharY = s.maxCharY ∧
      t.curLines = s.curLines := by
  have hsmall := h.small
  have hlen : (text ++ [ch]).length = text.length + 1 := by rw [List.length_append, List.length_singleton]
  rw [hlen] at hs
  rw [Programs.putNext, s.put_of_lt (by rw [h.loc]; omega)]
  refine ⟨_, rfl, ⟨hsmall, ?_, ?_, ?_, ?_⟩, rfl, rfl, rfl⟩
  · rw [hlen]
    exact hs
  · intro c hc
    rcases List.mem_append.mp hc with hold | hnew
    · exact h.nonzero c hold
    · rw [List.mem_singleton.mp hnew]
      exact hch
  · intro i hi
    dsimp only
    rw [h.loc]
    rcases lt_trichotomy i text.length with hlt | heq | hgt
    · rw [Function.update_of_ne (by omega), h.buffer i hi, List.getD_append text _ 0 i hlt]
    · rw [heq, Function.update_self, List.getD_append_right text _ 0 _ (le_refl _), Nat.sub_self]
      rfl
    · rw [Function.update_of_ne (by omega), h.zero_at hgt.le hi, List.getD_eq_default _ 0 (by rw [hlen]; omega)]
  · dsimp only
    rw [h.loc, hlen, u16_of_lt (by omega)]

/-- The joint invariant of buffer, counters and text on a screen of `x` times `y` characters. -/
structure Follows (x y : ℕ) (l : Lines) (s : Terminal) : Prop where
  maxCharX : s.maxCharX = x
  maxCharY : s.maxCharY = y
  shows : Shows s (l.last (y - 1))
  curLines : s.curLines = min l.completed.length (y - 1)

lemma Follows.size {x y : ℕ} {l : Lines} {s : Terminal} (h : Follows x y l s) : s.size = (x * y : ℕ) := by
  rw [Terminal.size, h.maxCharX, h.maxCharY, Nat.cast_mul]

lemma rows_mul (x : ℕ) {y : ℕ} (hy : 0 < y) : (y - 1) * x + x = x * y := by
  rw [← Nat.succ_mul, Nat.succ_eq_add_one, Nat.sub_add_cancel hy, Nat.mul_comm]

lemma Lines.Fits.length_le {l : Lines} {x y : ℕ} (h : l.Fits x) (hy : 2 ≤ y) : (l.last (y - 1)).length ≤ x * y := by
  have hlast := h.length_last (y - 1)
  have hu := h.unfinished
  have hxy := rows_mul x (show 0 < y by omega)
  omega

lemma Follows.putNext {x y : ℕ} {l : Lines} {s : Terminal} {text : List UInt8} (hshows : Shows s text)
    (hX : s.maxCharX = x) (hY : s.maxCharY = y) {ch : UInt8} (hch : ch ≠ 0)
    (hlast : (l.add ch).last (y - 1) = text ++ [ch]) (hroom : ((l.add ch).last (y - 1)).length ≤ x * y)
    (hcur : s.curLines = min (l.add ch).completed.length (y - 1)) :
    ∃ t, Programs.putNext s ch = .ok t ∧ Follows x y (l.add ch) t := by
  have hsize : s.size = (x * y : ℕ) := by rw [Terminal.size, hX, hY, Nat.cast_mul]
  obtain ⟨t, ht, htshows, htx, hty, htlines⟩ := hshows.putNext hch (by rw [← hlast, hsize]; exact Nat.cast_le.mpr hroom)
  refine ⟨t, ht, htx.trans hX, hty.trans hY, ?_, htlines.trans hcur⟩
  rw [hlast]
  exact htshows

lemma Follows.write {x y : ℕ} (hx : 0 < x) (hy : 2 ≤ y) (hsmall : x * y < 2 ^ 16) {l : Lines} {s : Terminal}
    (h : Follows x y l s) (hl : l.Ended) {ch : UInt8} (hch : ch ≠ 0) (hf : (l.add ch).Fits x) :
    ∃ t, writeCharTextBuffer s ch = .ok t ∧ Follows x y (l.add ch) t := by
  have hroom := hf.length_le hy
  obtain ⟨k, rfl⟩ : ∃ k, y = k + 2 := ⟨y - 2, by omega⟩
  have hy16 : k + 2 < 2 ^ 16 := lt_of_le_of_lt (Nat.le_mul_of_pos_left _ hx) hsmall
  have hcur : s.curLines = min l.completed.length (k + 1) := h.curLines
  have hkept : Shows s (l.last (k + 1)) := h.shows
  have hcounted : ∀ n, Shows { s with curLines := n } (l.last (k + 1)) :=
    fun n => ⟨hkept.small, hkept.length, hkept.nonzero, hkept.buffer, hkept.loc⟩
  by_cases hnl : ch = NEWLINE
  · subst hnl
    have hcount : (l.add NEWLINE).completed.length = l.completed.length + 1 := by
      rw [Lines.add_newline, List.length_append, List.length_singleton]
    have hnext : countLine s NEWLINE = min l.completed.length (k + 1) + 1 := by
      rw [countLine_newline, hcur, u16_of_lt (by omega)]
    by_cases hfull : k < l.completed.length
    · -- the newline is the last one there is room for, and the first line goes
      obtain ⟨first, hfirst, hlast⟩ := Lines.last_succ hfull
      obtain ⟨start, rfl, hstart⟩ := hl.completed first hfirst
      have hwidth := hf.of_add.completed _ hfirst
      rw [List.length_append, List.length_singleton] at hwidth
      have hshows := hcounted (countLine s NEWLINE)
      rw [hlast] at hshows
      obtain ⟨t, ht, htshows, htx, hty, htlines⟩ := hshows.scroll hstart (by dsimp only; rw [h.maxCharX]; omega)
      rw [writeCharTextBuffer, printChar_full (by rw [hnext, h.maxCharY]; exact decide_eq_true (by omega)), ht]
      refine Follows.putNext htshows (htx.trans h.maxCharX) (hty.trans h.maxCharY) hch (l.last_add_newline k) hroom ?_
      rw [htlines, hcount]
      dsimp only
      rw [hnext, u16Sub_of_le (by omega) (by omega)]
      omega
    · -- all lines stay
      rw [writeCharTextBuffer, printChar_room (by rw [hnext, h.maxCharY]; exact decide_eq_false (by omega))]
      refine Follows.putNext (hcounted (countLine s NEWLINE)) h.maxCharX h.maxCharY hch ?_ hroom ?_
      · rw [show k + 2 - 1 = k + 1 by omega, Lines.last_of_length_le (not_lt.mp hfull)]
        exact l.last_add_newline k
      · dsimp only
        rw [hnext, hcount]
        omega
  · have hnext : countLine s ch = min l.completed.length (k + 1) := by rw [countLine_of_ne s hnl, hcur]
    have hcount : (l.add ch).completed.length = l.completed.length := by rw [Lines.add_of_ne hnl]
    rw [writeCharTextBuffer, printChar_room (by rw [hnext, h.maxCharY]; exact decide_eq_false (by omega))]
    refine Follows.putNext (hcounted (countLine s ch)) h.maxCharX h.maxCharY hch (Lines.last_add_of_ne hnl (k + 1)) hroom ?_
    dsimp only
    rw [hnext, hcount]
    omega

lemma follows_blank {x y : ℕ} (hsmall : x * y < 2 ^ 16) (memory userMemory : ℕ → UInt8) :
    Follows x y ⟨[], []⟩ (blankTerminal x y memory userMemory) := by
  have hsize : (blankTerminal x y memory userMemory).size = (x * y : ℕ) := (Nat.cast_mul x y).symm
  refine ⟨rfl, rfl, ?_, (Nat.zero_min _).symm⟩
  rw [Lines.last_nil]
  refine ⟨?_, ?_, fun ch hch => absurd hch List.not_mem_nil, ?_, rfl⟩
  · rw [hsize]
    exact_mod_cast hsmall
  · rw [hsize]
    exact Nat.cast_nonneg _
  · intro i hi
    exact if_pos (Int.lt_add_one_of_le hi)

lemma write_follows {x y : ℕ} (hx : 0 < x) (hy : 2 ≤ y) (hsmall : x * y < 2 ^ 16) (memory userMemory : ℕ → UInt8)
    {text : List UInt8} (hch : ∀ ch ∈ text, ch ≠ 0) (hf : (lines text).Fits x) :
    ∃ t, text.foldlM writeCharTextBuffer (blankTerminal x y memory userMemory) = .ok t ∧
      Follows x y (lines text) t := by
  induction text using List.reverseRecOn with
  | nil => exact ⟨_, rfl, follows_blank hsmall memory userMemory⟩
  | append_singleton text ch ih =>
    rw [lines_append] at hf ⊢
    obtain ⟨s, hs, hfollows⟩ := ih (fun c hc => hch c (List.mem_append_left _ hc)) hf.of_add
    obtain ⟨t, ht, htfollows⟩ := hfollows.write hx hy hsmall (lines_ended text)
      (hch ch (List.mem_append_right _ (List.mem_singleton_self ch))) hf
    refine ⟨t, ?_, htfollows⟩
    rw [List.foldlM_append, hs]
    change (writeCharTextBuffer s ch >>= pure) = _
    rw [ht]
    rfl

/-- Text whose lines, newlines counted, are no wider than the screen: the buffer is the last `y - 1` completed lines and
the unfinished one. -/
theorem write_last_lines (x y : ℕ) (hx : 2 ≤ x) (hy : 2 ≤ y) (hsmall : x * y ≤ 65535) (memory userMemory : ℕ → UInt8)
    (text : List UInt8) (hch : ∀ ch ∈ text, ch ≠ 0) (hc : ∀ line ∈ (lines text).completed, line.length ≤ x)
    (hu : ((lines text).unfinished ++ [NEWLINE]).length ≤ x) :
    ∃ t, text.foldlM writeCharTextBuffer (blankTerminal x y memory userMemory) = .ok t ∧
      (List.range t.textbufLoc).map t.textBuffer =
        ((lines text).completed.rtake (y - 1)).flatten ++ (lines text).unfinished ∧
      (∀ i, t.textbufLoc ≤ i → i ≤ x * y → t.textBuffer i = 0) ∧
      t.curLines = (((lines text).completed.rtake (y - 1)).flatten ++ (lines text).unfinished).count NEWLINE ∧
      t.textbufLoc < x * y := by
  rw [List.length_append, List.length_singleton] at hu
  have hf : (lines text).Fits x := ⟨hc, by omega⟩
  obtain ⟨t, ht, hfollows⟩ := write_follows (by omega) hy (by omega) memory userMemory hch hf
  have hshows := hfollows.shows
  have hsize := hfollows.size
  have hlen := hshows.length
  rw [hsize, Nat.cast_le] at hlen
  refine ⟨t, ht, ?_, ?_, ?_, ?_⟩
  · apply List.ext_getElem
    · rw [List.length_map, List.length_range, hshows.loc]
      rfl
    · intro i hi hi'
      rw [List.length_map, List.length_range, hshows.loc] at hi
      rw [List.getElem_map, List.getElem_range, hshows.buffer i (by rw [hsize]; exact Nat.cast_le.mpr (by omega)),
        List.getD_eq_getElem _ 0 hi]
      rfl
  · intro i hi his
    rw [hshows.loc] at hi
    exact hshows.zero_at hi (by rw [hsize]; exact Nat.cast_le.mpr his)
  · rw [hfollows.curLines]
    exact ((lines_ended text).count_last (y - 1)).symm
  · rw [hshows.loc]
    have hlast := hf.length_last (y - 1)
    have hxy := rows_mul x (show 0 < y by omega)
    omega

/-- Three lines and a half on a screen with room for two: the first is gone. -/
theorem write_last_lines_three :
    ∃ t, ([97, 98, 10, 99, 10, 100, 101, 102, 103, 10, 104] : List UInt8).foldlM writeCharTextBuffer
        (blankTerminal 5 3 (fun _ => 1) (fun _ => 1)) = .ok t ∧
      (List.range t.textbufLoc).map t.textBuffer = [99, 10, 100, 101, 102, 103, 10, 104] ∧
      (∀ i, t.textbufLoc ≤ i → i ≤ 15 → t.textBuffer i = 0) ∧ t.curLines = 2 ∧ t.textbufLoc < 15 :=
  write_last_lines 5 3 (by norm_num) (by norm_num) (by norm_num) (fun _ => 1) (fun _ => 1)
    [97, 98, 10, 99, 10, 100, 101, 102, 103, 10, 104] (by simp) (by decide) (by decide)

end WordOS.Programs
