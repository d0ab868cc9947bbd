import WordOS.Drivers.Keyboard
import WordOS.Programs.TerminalCommands

/-! The keys of a line, as `terminal_loop` handles them, and the command it runs at the end. -/

namespace WordOS.Programs

open Machine Drivers Memory Lib.LineEditing Lib.Reversal

/-- The characters of a key, with the shift key and without. -/
def keysyms : List (KernelScancode × UInt8 × UInt8) :=
  [(.keyA, 65, 97), (.keyB, 66, 98), (.keyC, 67, 99), (.keyD, 68, 100), (.keyE, 69, 101), (.keyF, 70, 102),
    (.keyG, 71, 103), (.keyH, 72, 104), (.keyI, 73, 105), (.keyJ, 74, 106), (.keyK, 75, 107), (.keyL, 76, 108),
    (.keyM, 77, 109), (.keyN, 78, 110), (.keyO, 79, 111), (.keyP, 80, 112), (.keyQ, 81, 113), (.keyR, 82, 114),
    (.keyS, 83, 115), (.keyT, 84, 116), (.keyU, 85, 117), (.keyV, 86, 118), (.keyW, 87, 119), (.keyX, 88, 120),
    (.keyY, 89, 121), (.keyZ, 90, 122), (.key1, 33, 49), (.key2, 64, 50), (.key3, 35, 51), (.key4, 36, 52),
    (.key5, 37, 53), (.key6, 94, 54), (.key7, 38, 55), (.key8, 42, 56), (.key9, 40, 57), (.key0, 41, 48),
    (.keyLbracket, 123, 91), (.keyRbracket, 125, 93), (.keyFslash, 63, 47), (.keyBslash, 124, 92),
    (.keySingleQuote, 34, 39), (.keySemiColon, 58, 59), (.keyPeriod, 62, 46), (.keyComma, 60, 44),
    (.keyEquals, 43, 61), (.keyMinus, 95, 45), (.keyBacktick, 126, 96), (.keySpace, SPACE, SPACE), (.keyTab, 9, 9),
    (.keyBackspace, BACKSPACE, BACKSPACE), (.keyReturn, NEWLINE, NEWLINE)]

def keycodeToKeysym (key : KeyEvent) : UInt8 :=
  let shifted := key.masks &&& SHIFT_MASK ≠ 0
  match keysyms.find? fun entry => entry.1.ctorIdx = key.code with
  | some (_, upper, lower) => if shifted then upper else lower
  | none => 0

/-- `keysym` of `terminal_loop`: a key that goes up types nothing. -/
def typedChar (event : KeyEvent) : UInt8 := if event.masks &&& RELEASE_MASK ≠ 0 then 0 else keycodeToKeysym event

def typeKey (s : Terminal) (event : KeyEvent) : Exec Terminal :=
  let keysym := typedChar event
  if keysym ≠ 0 then writeUserChar s keysym else .ok s

/-- The keys up to a Return, and the echo of the line that follows it. -/
def enterLine (s : Terminal) (events : List KeyEvent) : Exec Terminal := do
  let s ← events.foldlM typeKey s
  writeTextBuffer s (cString s.userChars (s.maxCharX + 1).toNat)

def typedChars (events : List KeyEvent) : List UInt8 := (events.map typedChar).filter (· ≠ 0)

def COMMANDS : List (List UInt8) := [VERSION, WOOF, SHUTDOWN]

def actionOf (word : List UInt8) : Action :=
  if word = VERSION then .version else if word = WOOF then .woof else if word = SHUTDOWN then .shutdown else .unknown word

def spaceWord (text : List UInt8) : List UInt8 := text.takeWhile (· ≠ SPACE)

def press (keys : List KernelScancode) : List KeyEvent := keys.map fun key => ⟨key.ctorIdx, 0⟩

def RETURN : KeyEvent := ⟨KernelScancode.keyReturn.ctorIdx, 0⟩

section

variable {s t : Terminal} {events : List KeyEvent} {text word : List UInt8} {ch : UInt8}

lemma foldlM_typeKey (events : List KeyEvent) (s : Terminal) :
    events.foldlM typeKey s = (typedChars events).foldlM writeUserChar s := by
  induction events generalizing s with
  | nil => rfl
  | cons event events ih =>
    rw [List.foldlM_cons, typedChars, List.map_cons]
    by_cases h0 : typedChar event = 0
    · rw [List.filter_cons_of_neg (by simpa using h0), typeKey, if_neg (not_not.mpr h0), ok_bind]
      exact ih s
    · rw [List.filter_cons_of_pos (by simpa using h0), List.foldlM_cons, typeKey, if_pos h0]
      congr 1
      funext u
      exact ih u

lemma typedChars_append (events more : List KeyEvent) : typedChars (events ++ more) = typedChars events ++ typedChars more := by
  simp only [typedChars, List.map_append, List.filter_append]

lemma printChar_userChars {full : ℕ → ℤ → Bool} (h : printChar full s ch = .ok t) :
    t.userChars = s.userChars ∧ t.maxCharX = s.maxCharX := by
  obtain ⟨-, b, rfl⟩ := printChar_eq_ok h
  exact ⟨rfl, rfl⟩

lemma WordAt.writeTextBuffer (h : WordAt s word) (ht : writeTextBuffer s text = .ok t) : WordAt t word := by
  refine foldlM_keeps (I := fun u => WordAt u word) (fun u ch v hu hv => ?_) ht h
  obtain ⟨hchars, hx⟩ := printChar_userChars hv
  exact ⟨hchars ▸ hu.typed, hu.inner, hchars ▸ hu.stop, hx ▸ hu.fits⟩

lemma firstWord_snoc (hch : EndsWord ch) (text : List UInt8) : firstWord (text ++ [ch]) = firstWord text := by
  induction text with
  | nil => exact List.takeWhile_cons_of_neg (by simpa using hch)
  | cons c text ih =>
    rw [firstWord] at ih ⊢
    rw [List.cons_append, firstWord, List.takeWhile_cons, List.takeWhile_cons, ih, firstWord]

lemma firstWord_eq_spaceWord (h : ∀ c ∈ text, c ≠ 0 ∧ c ≠ NEWLINE) : firstWord text = spaceWord text := by
  induction text with
  | nil => rfl
  | cons c text ih =>
    rw [List.forall_mem_cons] at h
    have hc : EndsWord c ↔ c = SPACE := by
      rw [EndsWord, or_iff_right h.1.1, or_iff_left h.1.2]
    have hrest := ih h.2
    rw [firstWord, spaceWord] at hrest ⊢
    rw [List.takeWhile_cons, List.takeWhile_cons, hrest]
    simp only [hc, ne_eq]

def chosen (word : List UInt8) : Action :=
  if VERSION <+: word then .version else if WOOF <+: word then .woof else if SHUTDOWN <+: word then .shutdown else .unknown word

lemma parse_eq (h : WordAt s word) (h125 : word.length ≤ 125) : parseUserChars s = .ok (chosen word) := by
  obtain ⟨w, hw, -, hspells, hzero⟩ := scan_run h h125
  rw [List.take_length] at hspells
  have hfits := h.fits
  have hstring : IsString w.command word :=
    ⟨hspells, hzero word.length (le_refl _), fun ch hch h0 => h.inner ch hch (Or.inl h0)⟩
  rw [parseUserChars, hw, ok_bind, chooseAction, chosen, hstring.cString (show word.length < s.maxCharX.toNat by omega)]
  simp only [strcmp_iff VERSION hstring (by decide), strcmp_iff WOOF hstring (by decide), strcmp_iff SHUTDOWN hstring (by decide)]
  rfl

lemma command_unique {name other : List UInt8} (hn : name ∈ COMMANDS) (ho : other ∈ COMMANDS) (h : name <+: word)
    (h' : other <+: word) : name = other := by
  have hapart : ∀ n ∈ COMMANDS, ∀ o ∈ COMMANDS, n <+: o → n = o := by decide
  rcases List.prefix_or_prefix_of_prefix h h' with hle | hle
  · exact hapart name hn other ho hle
  · exact (hapart other ho name hn hle).symm

lemma names_whole_iff {name : List UInt8} (hn : name ∈ COMMANDS) (h : name <+: word) :
    (∀ other ∈ COMMANDS, other <+: word → other = word) ↔ word = name := by
  constructor
  · exact fun hall => (hall name hn h).symm
  · rintro rfl other ho h'
    exact command_unique ho hn h' h

lemma chosen_iff : chosen word = actionOf word ↔ ∀ name ∈ COMMANDS, name <+: word → name = word := by
  have hversion : VERSION ∈ COMMANDS := by decide
  have hwoof : WOOF ∈ COMMANDS := by decide
  have hshutdown : SHUTDOWN ∈ COMMANDS := by decide
  rw [chosen, actionOf]
  by_cases hv : VERSION <+: word
  · rw [if_pos hv, names_whole_iff hversion hv]
    split_ifs
    all_goals simp_all
  · have hv' : word ≠ VERSION := fun h => hv (h ▸ List.prefix_rfl)
    rw [if_neg hv, if_neg hv']
    by_cases hw : WOOF <+: word
    · rw [if_pos hw, names_whole_iff hwoof hw]
      split_ifs
      all_goals simp_all
    · have hw' : word ≠ WOOF := fun h => hw (h ▸ List.prefix_rfl)
      rw [if_neg hw, if_neg hw']
      by_cases hs : SHUTDOWN <+: word
      · rw [if_pos hs, names_whole_iff hshutdown hs]
        split_ifs
        all_goals simp_all
      · have hs' : word ≠ SHUTDOWN := fun h => hs (h ▸ List.prefix_rfl)
        rw [if_neg hs, if_neg hs']
        refine iff_of_true rfl fun name hname hle => ?_
        simp only [COMMANDS, List.mem_cons, List.not_mem_nil, or_false] at hname
        rcases hname with rfl | rfl | rfl
        · exact absurd hle hv
        · exact absurd hle hw
        · exact absurd hle hs

lemma enterLine_wordAt (hs : FreshLine s) (h3 : 3 ≤ s.maxCharX) {enter : KeyEvent}
    (hevents : ∀ event ∈ events, typedChar event ≠ NEWLINE) (henter : typedChar enter = NEWLINE)
    (ht : enterLine s (events ++ [enter]) = .ok t) :
    WordAt t (spaceWord (edited BACKSPACE (lineWidth s) (typedChars events))) := by
  obtain ⟨u, hu, hecho⟩ := bind_eq_ok.mp ht
  rw [foldlM_typeKey, typedChars_append] at hu
  obtain ⟨hline, hsame⟩ := (hs.holds (by omega)).run hs.width hu
  have hword := hline.wordAt.writeTextBuffer hecho
  have hlast : typedChars [enter] = [NEWLINE] := by
    rw [typedChars, List.map_singleton, henter]
    rfl
  rw [hlast, lineWidth, hsame, ← lineWidth, edited_snoc, editLine, if_neg (by decide)] at hword
  have htyped : ∀ c ∈ edited BACKSPACE (lineWidth s) (typedChars events), c ≠ 0 ∧ c ≠ NEWLINE := by
    intro c hc
    obtain ⟨hmem, h0⟩ := List.mem_filter.mp (mem_edited hc).1
    obtain ⟨event, hevent, rfl⟩ := List.mem_map.mp hmem
    exact ⟨of_decide_eq_true h0, hevents event hevent⟩
  rw [← firstWord_eq_spaceWord htyped]
  split_ifs at hword
  · exact hword
  · rwa [firstWord_snoc (Or.inr (Or.inr rfl))] at hword

/-- The command that runs is the one that the first word names, for words that the scan can pass and that do not merely begin
with a name. -/
theorem command_iff (hs : FreshLine s) (h3 : 3 ≤ s.maxCharX) {enter : KeyEvent}
    (hevents : ∀ event ∈ events, typedChar event ≠ NEWLINE) (henter : typedChar enter = NEWLINE)
    (ht : enterLine s (events ++ [enter]) = .ok t) :
    parseUserChars t = .ok (actionOf (spaceWord (edited BACKSPACE (lineWidth s) (typedChars events)))) ↔
      (spaceWord (edited BACKSPACE (lineWidth s) (typedChars events))).length ≤ 125 ∧
        ∀ name ∈ COMMANDS, name <+: spaceWord (edited BACKSPACE (lineWidth s) (typedChars events)) →
          name = spaceWord (edited BACKSPACE (lineWidth s) (typedChars events)) := by
  have hword := enterLine_wordAt hs h3 hevents henter ht
  constructor
  · intro hparse
    obtain ⟨w, hw, -⟩ := bind_eq_ok.mp hparse
    have h125 := (scanWord_iff hword).mp ⟨w, hw⟩
    rw [parse_eq hword h125, Except.ok.injEq] at hparse
    exact ⟨h125, chosen_iff.mp hparse⟩
  · rintro ⟨h125, hnames⟩
    rw [parse_eq hword h125, chosen_iff.mpr hnames]

end

/-- The terminal of a screen that is 96 pixels wide, with a line of nine characters. -/
def smallTerminal : Terminal := initTerminal 96 64 (fun _ => 0) fun _ => 0

lemma smallTerminal_fresh : FreshLine smallTerminal := ⟨96, 64, fun _ => 0, fun _ => 0, _, _, _, rfl⟩

theorem command_iff_woof : ∃ t, enterLine smallTerminal (press [.keyW, .keyO, .keyO, .keyF] ++ [RETURN]) = .ok t ∧
    (parseUserChars t = .ok (actionOf WOOF) ↔ WOOF.length ≤ 125 ∧ ∀ name ∈ COMMANDS, name <+: WOOF → name = WOOF) := by
  obtain ⟨t, ht, -⟩ := exists_of_toOption_map
    (x := enterLine smallTerminal (press [.keyW, .keyO, .keyO, .keyF] ++ [RETURN])) (g := fun _ => ()) (c := ()) (by decide)
  have hword : spaceWord (edited BACKSPACE (lineWidth smallTerminal) (typedChars (press [.keyW, .keyO, .keyO, .keyF]))) = WOOF := by
    decide
  have hiff := command_iff smallTerminal_fresh (by decide) (by decide) (by decide) ht
  rw [hword] at hiff
  exact ⟨t, ht, hiff⟩

/-- A word of which a name is only the beginning runs the command. -/
theorem command_not_exact : ∃ t,
    enterLine smallTerminal (press [.keyV, .keyE, .keyR, .keyS, .keyI, .keyO, .keyN, .keyX] ++ [RETURN]) = .ok t ∧
      spaceWord (edited BACKSPACE (lineWidth smallTerminal)
        (typedChars (press [.keyV, .keyE, .keyR, .keyS, .keyI, .keyO, .keyN, .keyX]))) = literal "versionx".toList ∧
      parseUserChars t = .ok .version ∧ actionOf (literal "versionx".toList) = .unknown (literal "versionx".toList) := by
  obtain ⟨t, ht, hparse⟩ := exists_of_toOption_map
    (x := enterLine smallTerminal (press [.keyV, .keyE, .keyR, .keyS, .keyI, .keyO, .keyN, .keyX] ++ [RETURN]))
    (g := parseUserChars) (c := .ok .version) (by decide)
  exact ⟨t, ht, by decide, hparse, by decide⟩

end WordOS.Programs
