import WordOS.Drivers.KeyboardShift
import WordOS.Programs.TerminalColors
import WordOS.Programs.TerminalKeys

/-! `terminal_loop` for as long as it runs: from the bytes of the keyboard to the commands. -/

namespace WordOS.Programs

open Machine Drivers Kernel Memory Lib.LineEditing Lib.Loops Lib.Reversal Lib.Runs

def KERNEL_VERSION : List UInt8 := literal "0.0.5".toList

def actionFormat : Action → List UInt8
  | .version => literal "WordOS kernel version: %t30%s%t10\n".toList
  | .woof => literal "%t54okay%t10\n".toList
  | .shutdown => literal "Goodbye!\n".toList
  | .unknown _ => literal "Command %t20%s%t10 unknown.\n".toList

/-- What `%s` stands for. -/
def actionText : Action → List UInt8
  | .version => KERNEL_VERSION
  | .unknown command => command
  | _ => []

/-- The call of `printf` in a branch of `parse_user_chars`. -/
def report (stack : ℕ → ℕ → UInt8) (action : Action) : PrintfCall :=
  ⟨(actionFormat action).length + 1, stack, ⟨fun _ => 0, fun _ => actionText action⟩, bytesOf (actionFormat action)⟩

/-- A pass of `terminal_loop`, with the event that `next_keycode` has returned. -/
-- `woof` starts a process and `shutdown` stops the machine beside this, and no pass follows the second
def handleEvent (stack : ℕ → ℕ → UInt8) (s : Terminal) (event : KeyEvent) : Exec (Terminal × Option Action) :=
  if event.code = KernelScancode.keyNull.ctorIdx then .ok (s, none)
  else if typedChar event = 0 then .ok (s, none)
  else do
    let s ← writeUserChar s (typedChar event)
    if typedChar event = NEWLINE then do
      let s ← writeTextBuffer s (cString s.userChars (s.maxCharX + 1).toNat)
      let action ← parseUserChars s
      let s ← (report stack action).run s
      return (drawTextBuffer (startUserLine s), some action)
    else return (s, none)

/-- Whether a pass of `printf`, of `n` from `i` on, prints a newline, after which it draws the text. -/
def drawsFrom (format : ℕ → UInt8) : (n i : ℕ) → Bool
  | 0, _ => false
  | n + 1, i =>
    if format i = 0 then false
    else if format i = PERCENT then drawsFrom format n (i + 2)
    else format i = NEWLINE || drawsFrom format n (i + 1)

def PrintfCall.draws (c : PrintfCall) : Bool := drawsFrom c.format c.passes 0

/-- What happens to the line: a character, or that `draw_text_buffer` wipes it. -/
inductive LineEvent
  | char (ch : UInt8)
  | wipe
  deriving DecidableEq, Repr

def LineEvent.char? : LineEvent → Option UInt8
  | .char ch => some ch
  | .wipe => none

/-- The keyboard and the terminal, with what has happened to the line and the commands that have run. -/
structure Console where
  history : KeyHistory
  terminal : Terminal
  log : List LineEvent
  commands : List Action

inductive ConsoleAct
  | key (a : KeyAct)
  | print (c : PrintfCall)

/-- Interrupts come at any point of `next_keycode`, and other processes print between the passes of the loop. -/
inductive ConsoleStep : Console → ConsoleAct → Console → Prop
  | key {s a history} : a ≠ .take → KeyStep s.history a history → ConsoleStep s (.key a) { s with history }
  | take {s history stack terminal action} : KeyStep s.history .take history →
      handleEvent stack s.terminal (takeKeycode s.history.keyboard).1 = .ok (terminal, action) →
      ConsoleStep s (.key .take)
        { history, terminal
          log := s.log ++ (typedChars [(takeKeycode s.history.keyboard).1]).map .char
          commands := s.commands ++ action.toList }
  | print {s c terminal} : c.run s.terminal = .ok terminal →
      ConsoleStep s (.print c) { s with terminal, log := s.log ++ if c.draws then [.wipe] else [] }

/-- What a line and the commands become. -/
def typeLine (width : ℕ) : List UInt8 × List Action → LineEvent → List UInt8 × List Action
  | (line, done), .wipe => (line.map fun _ => 0, done)
  | (line, done), .char ch =>
    if ch = NEWLINE then ([], done ++ [chosen (firstWord line)]) else (editLine BACKSPACE width line ch, done)

def session (width : ℕ) (log : List LineEvent) : List UInt8 × List Action := log.foldl (typeLine width) ([], [])

def ConsoleAct.code? : ConsoleAct → Option KeyInput
  | .key (.keychange e) => some e
  | _ => none

def codesOf (acts : List ConsoleAct) : List KeyInput := acts.filterMap ConsoleAct.code?

/-- The events of the codes, the shift keys being as the codes before have left them. -/
def eventsOf : Keyboard → List KeyInput → List KeyEvent
  | _, [] => []
  | k, e :: inputs => keyEvent e k :: eventsOf (handleKeychange e k) inputs

def startConsole (s : Terminal) : Console := ⟨poweredOn, s, [], []⟩

/-- A step before and after which fewer events than slots are to be read. -/
def RoomyConsole (c : Console) (a : ConsoleAct) (c' : Console) : Prop :=
  ConsoleStep c a c' ∧ c.history.outstanding < MAX_KEY_BUFFER_SIZE ∧ c'.history.outstanding < MAX_KEY_BUFFER_SIZE

/-- The line stands behind the prompt. -/
structure LineAt (line : List UInt8) (s : Terminal) : Prop where
  index : s.userCharIndex = 2 + line.length
  bound : s.userCharIndex ≤ s.maxCharX
  typed : Spells s.userChars 2 line
  last : s.userChars s.maxCharX.toNat = 0

variable {s t : Terminal} {line : List UInt8} {ch : UInt8} {event : KeyEvent} {width : ℕ} {log : List LineEvent} {e : LineEvent}

lemma session_snoc : session width (log ++ [e]) = typeLine width (session width log) e := by
  simp only [session, List.foldl_append, List.foldl_cons, List.foldl_nil]

lemma typedChar_null (h : event.code = KernelScancode.keyNull.ctorIdx) : typedChar event = 0 := by
  have hnone : keysyms.find? (fun entry => entry.1.ctorIdx = event.code) = none := by
    rw [h]
    decide
  rw [typedChar, keycodeToKeysym]
  simp only [hnone, ite_self]

/-- What printing leaves alone. -/
def SameLine (s t : Terminal) : Prop :=
  t.userChars = s.userChars ∧ t.userCharIndex = s.userCharIndex ∧ t.maxCharX = s.maxCharX

namespace SameLine

lemma refl (s : Terminal) : SameLine s s := ⟨rfl, rfl, rfl⟩

lemma trans {u : Terminal} (h : SameLine s t) (h' : SameLine t u) : SameLine s u :=
  ⟨h'.1.trans h.1, h'.2.1.trans h.2.1, h'.2.2.trans h.2.2⟩

lemma print {full : ℕ → ℤ → Bool} {u : Terminal} (h : SameLine s t) (hu : printChar full t ch = .ok u) : SameLine s u := by
  obtain ⟨-, b, rfl⟩ := printChar_eq_ok hu
  exact h

lemma write {text : List UInt8} (ht : writeTextBuffer s text = .ok t) : SameLine s t :=
  writeTextBuffer_keeps (fun _ _ _ _ hu hv => hu.print hv) (refl s) ht

lemma draw (h : SameLine s t) : SameLine (drawTextBuffer s) (drawTextBuffer t) := by
  obtain ⟨hchars, hindex, hx⟩ := h
  refine ⟨?_, hindex, hx⟩
  simp only [drawTextBuffer, hchars, hx]

lemma drawIf (h : SameLine s t) (b : Bool) : SameLine (if b then drawTextBuffer s else s) (if b then drawTextBuffer t else t) := by
  cases b
  · exact h
  · exact h.draw

lemma draw_draw (s : Terminal) : SameLine (drawTextBuffer s) (drawTextBuffer (drawTextBuffer s)) := by
  refine ⟨funext fun i => ?_, rfl, rfl⟩
  simp only [drawTextBuffer]
  split_ifs
  · rfl
  · rfl

lemma drawMore (s : Terminal) (b : Bool) :
    SameLine (drawTextBuffer s) (if b then drawTextBuffer (drawTextBuffer s) else drawTextBuffer s) := by
  cases b
  · exact refl _
  · exact draw_draw s

end SameLine

lemma loop_printf {stack : ℕ → ℕ → UInt8} {args : VaList} {format : ℕ → UInt8} {n : ℕ} {p q : Printf}
    (h : loop .fuel (printfBody stack args format) n p = .ok q) :
    SameLine (if drawsFrom format n p.string then drawTextBuffer p.terminal else p.terminal) q.terminal := by
  induction n generalizing p with
  | zero => cases h
  | succ n ih =>
    rw [drawsFrom]
    by_cases hzero : format p.string = 0
    · have hbody : printfBody stack args format p = .ok none := by rw [printfBody, if_pos hzero]
      rw [loop_leave hbody] at h
      obtain rfl := Except.ok.inj h
      rw [if_pos hzero]
      exact .refl _
    · rw [if_neg hzero]
      obtain ⟨r, hr⟩ : ∃ r, printfBody stack args format p = .ok r := by
        cases hb : printfBody stack args format p with
        | error e =>
          rw [loop_error hb] at h
          cases h
        | ok r => exact ⟨r, rfl⟩
      by_cases hpercent : format p.string = PERCENT
      · rw [if_pos hpercent]
        have hbody := hr
        rw [printfBody, if_neg hzero, if_pos hpercent] at hr
        obtain ⟨u, hu, hnext⟩ := bind_eq_ok.mp hr
        obtain rfl := Except.ok.inj hnext
        rw [loop_pass hbody] at h
        have hsame : SameLine p.terminal u.terminal :=
          printfOption_keeps (I := SameLine p.terminal) (p := p.advance 1) (fun _ _ _ _ hv hw => hv.print hw) (.refl _) hu
        have hstring : (u.advance 1).string = p.string + 2 := congrArg (· + 1) (printfOption_string hu)
        have hrest := ih h
        rw [hstring] at hrest
        exact (hsame.drawIf _).trans hrest
      · rw [if_neg hpercent]
        have hbody := hr
        rw [printfBody, if_neg hzero, if_neg hpercent] at hr
        obtain ⟨u, hu, hnext⟩ := bind_eq_ok.mp hr
        obtain rfl := Except.ok.inj hnext
        rw [loop_pass hbody] at h
        have hsame : SameLine p.terminal u := (SameLine.refl _).print hu
        have hrest := ih h
        dsimp only [Printf.advance, Printf.shown] at hrest
        by_cases hnewline : format p.string = NEWLINE
        · rw [if_pos hnewline] at hrest
          rw [decide_eq_true hnewline, Bool.true_or, if_pos rfl]
          exact hsame.draw.trans ((SameLine.drawMore u _).trans hrest)
        · rw [if_neg hnewline] at hrest
          rw [decide_eq_false hnewline, Bool.false_or]
          exact (hsame.drawIf _).trans hrest

lemma PrintfCall.sameLine {c : PrintfCall} (h : c.run s = .ok t) : SameLine (if c.draws then drawTextBuffer s else s) t := by
  obtain ⟨p, hp, hlast⟩ := bind_eq_ok.mp h
  obtain rfl := Except.ok.inj hlast
  exact loop_printf hp

lemma wordAt_firstWord {text : List UInt8} (h : Spells s.userChars 2 text) (hfits : ((2 + text.length : ℕ) : ℤ) ≤ s.maxCharX)
    (hstop : EndsWord (s.userChars (2 + text.length))) : WordAt s (firstWord text) := by
  obtain ⟨rest, htext, hhead⟩ := firstWord_append text
  have hlen := congrArg List.length htext
  rw [List.length_append] at hlen
  rw [htext] at h
  refine ⟨h.left, fun ch hch => by simpa using List.mem_takeWhile_imp hch, ?_, by omega⟩
  cases rest with
  | nil =>
    rw [List.length_nil] at hlen
    rw [← show text.length = (firstWord text).length by omega]
    exact hstop
  | cons ch rest =>
    have hch := h.right 0 (Nat.succ_pos _)
    rw [List.getElem?_cons_zero, Nat.add_zero, Option.some.injEq] at hch
    rw [← hch]
    exact hhead ch rfl

namespace LineAt

lemma same (h : LineAt line s) (hs : SameLine s t) : LineAt line t := by
  obtain ⟨hchars, hindex, hx⟩ := hs
  exact ⟨hindex.trans h.index, by rw [hindex, hx]; exact h.bound, hchars ▸ h.typed, by rw [hchars, hx]; exact h.last⟩

lemma wipe (h : LineAt line s) : LineAt (line.map fun _ => 0) (drawTextBuffer s) := by
  have hindex := h.index
  have hbound := h.bound
  refine ⟨by rw [List.length_map]; exact hindex, hbound, fun i hi => ?_, ?_⟩
  · rw [List.length_map] at hi
    have hin : 1 < 2 + i ∧ ((2 + i : ℕ) : ℤ) < s.maxCharX := by omega
    rw [List.getElem?_map, List.getElem?_eq_getElem hi]
    exact congrArg some (if_pos hin).symm
  · refine (if_neg ?_).trans h.last
    dsimp only [drawTextBuffer]
    omega

lemma key (h : LineAt line s) (hx : s.maxCharX < 2 ^ 15) (ht : writeUserChar s ch = .ok t) :
    LineAt (editLine BACKSPACE (lineWidth s) line ch) t := by
  have hindex := h.index
  have hbound := h.bound
  have hwidth : (lineWidth s : ℤ) = s.maxCharX - 2 := Int.toNat_of_nonneg (by omega)
  rcases writeUserChar_cases ht with ⟨rfl, hfew, rfl⟩ | ⟨rfl, hmore, rfl⟩ | ⟨hch, hfull, rfl⟩ | ⟨hch, hroom, b, rfl⟩
  · have hnil : line = [] := List.eq_nil_of_length_eq_zero (by omega)
    subst hnil
    exact h
  · have hlen : line.dropLast.length = s.userCharIndex - 3 := by
      rw [List.length_dropLast]
      omega
    have hfull := h.typed
    have hne : line ≠ [] := by
      rw [← List.length_pos_iff]
      omega
    rw [← List.dropLast_append_getLast hne] at hfull
    rw [editLine, if_pos rfl]
    refine ⟨?_, ?_, hfull.left.congr fun i hi => Function.update_of_ne (by omega) .., ?_⟩
    · dsimp only
      omega
    · dsimp only
      omega
    · exact (Function.update_of_ne (by dsimp only; omega) ..).trans h.last
  · rw [editLine, if_neg hch, if_pos (by omega)]
    exact h
  · have hnext : u16 (s.userCharIndex + 1) = s.userCharIndex + 1 := u16_of_lt (by omega)
    rw [editLine, if_neg hch, if_neg (by omega)]
    refine ⟨?_, ?_, hindex ▸ h.typed.snoc, ?_⟩
    · rw [List.length_append, List.length_singleton]
      dsimp only
      omega
    · dsimp only
      omega
    · exact (Function.update_of_ne (by dsimp only; omega) ..).trans h.last

/-- Return at the end of the line, or behind a full one, which it does not enter. -/
lemma newline (h : LineAt line s) (ht : writeUserChar s NEWLINE = .ok t) : WordAt t (firstWord line) := by
  have hindex := h.index
  have hbound := h.bound
  rcases writeUserChar_cases ht with ⟨hback, -⟩ | ⟨hback, -⟩ | ⟨-, hfull, rfl⟩ | ⟨-, hroom, b, rfl⟩
  · exact absurd hback (by decide)
  · exact absurd hback (by decide)
  · refine wordAt_firstWord h.typed (by omega) (Or.inl ?_)
    rw [← hindex, ← h.last]
    congr 1
    omega
  · refine wordAt_firstWord (h.typed.congr fun i hi => Function.update_of_ne (by omega) ..) (by dsimp only; omega) ?_
    refine Or.inr (Or.inr ?_)
    rw [← hindex]
    exact Function.update_self ..

lemma restart (h : LineAt line s) (h2 : 2 ≤ s.maxCharX) : LineAt [] (drawTextBuffer (startUserLine s)) := by
  refine ⟨rfl, h2, .nil _ _, (if_neg ?_).trans h.last⟩
  dsimp only [drawTextBuffer, startUserLine]
  omega

lemma fresh (h : FreshLine s) (h2 : 2 ≤ s.maxCharX) : LineAt [] s := by
  have hline := h.holds h2
  refine ⟨hline.index, hline.bounds.2, .nil _ _, hline.blank _ ?_ ?_⟩
  · rw [longest_nil]
    omega
  · omega

end LineAt

lemma typedChars_singleton : typedChars [event] = if typedChar event = 0 then [] else [typedChar event] := by
  rw [typedChars, List.map_singleton]
  split_ifs with hzero
  · exact List.filter_cons_of_neg (by simpa using hzero)
  · exact List.filter_cons_of_pos (by simpa using hzero)

/-- An event, and what it makes of the line and the commands. -/
lemma LineAt.handle (h : LineAt line s) (h3 : 3 ≤ s.maxCharX) (h127 : s.maxCharX ≤ 127) {stack : ℕ → ℕ → UInt8}
    {action : Option Action} (ht : handleEvent stack s event = .ok (t, action)) (done : List Action) : t.maxCharX = s.maxCharX ∧
      ∃ line', LineAt line' t ∧
        ((typedChars [event]).map .char).foldl (typeLine (lineWidth s)) (line, done) = (line', done ++ action.toList) := by
  have hnothing : typedChar event = 0 → (Except.ok (s, none) : Exec (Terminal × Option Action)) = .ok (t, action) →
      t.maxCharX = s.maxCharX ∧ ∃ line', LineAt line' t ∧
        ((typedChars [event]).map .char).foldl (typeLine (lineWidth s)) (line, done) = (line', done ++ action.toList) := by
    intro hzero heq
    obtain ⟨rfl, rfl⟩ := Prod.mk.inj (Except.ok.inj heq)
    rw [typedChars_singleton, if_pos hzero]
    exact ⟨rfl, line, h, Prod.ext rfl (List.append_nil done).symm⟩
  rw [handleEvent] at ht
  split_ifs at ht with hnull hzero hnewline
  · exact hnothing (typedChar_null hnull) ht
  · exact hnothing hzero ht
  · obtain ⟨u, hu, hrest⟩ := bind_eq_ok.mp ht
    obtain ⟨v, hv, hrest⟩ := bind_eq_ok.mp hrest
    obtain ⟨chosenAction, hparse, hrest⟩ := bind_eq_ok.mp hrest
    obtain ⟨w, hw, hlast⟩ := bind_eq_ok.mp hrest
    obtain ⟨rfl, rfl⟩ := Prod.mk.inj (Except.ok.inj hlast)
    rw [hnewline] at hu
    have hx := (writeUserChar_stays hu).1
    have hword := (h.newline hu).writeTextBuffer hv
    have hlength := hword.fits
    have hecho := SameLine.write hv
    -- the word is too short for the index to wrap
    rw [parse_eq hword (by rw [hecho.2.2, hx] at hlength; omega), Except.ok.injEq] at hparse
    have hprinted := PrintfCall.sameLine hw
    have hline : ∃ line', LineAt line' w := by
      have hv' := (h.key (by omega) hu).same hecho
      cases hdraws : (report stack chosenAction).draws with
      | true =>
        rw [hdraws, if_pos rfl] at hprinted
        exact ⟨_, hv'.wipe.same hprinted⟩
      | false =>
        rw [hdraws] at hprinted
        exact ⟨_, hv'.same hprinted⟩
    have hwx : w.maxCharX = s.maxCharX := by
      have hsame : w.maxCharX = v.maxCharX := by
        rw [hprinted.2.2]
        split_ifs
        · rfl
        · rfl
      rw [hsame, hecho.2.2, hx]
    obtain ⟨line', hline'⟩ := hline
    refine ⟨hwx, [], hline'.restart (by omega), ?_⟩
    rw [typedChars_singleton, if_neg hzero, hnewline, ← hparse]
    rfl
  · obtain ⟨u, hu, hlast⟩ := bind_eq_ok.mp ht
    obtain ⟨rfl, rfl⟩ := Prod.mk.inj (Except.ok.inj hlast)
    refine ⟨(writeUserChar_stays hu).1, _, h.key (by omega) hu, ?_⟩
    rw [typedChars_singleton, if_neg hzero, List.map_singleton, List.foldl_cons, List.foldl_nil, typeLine, if_neg hnewline]
    exact Prod.ext rfl (List.append_nil done).symm

lemma eventsOf_snoc {k : Keyboard} {inputs : List KeyInput} {e : KeyInput} :
    eventsOf k (inputs ++ [e]) = eventsOf k inputs ++ [keyEvent e (inputs.foldl (fun s e => handleKeychange e s) k)] := by
  induction inputs generalizing k with
  | nil => rfl
  | cons e' inputs ih => exact congrArg (keyEvent e' k :: ·) ih

/-- An event is made of the code and the shift state. -/
lemma keyEvent_congr {e : KeyInput} {k k' : Keyboard} (h : k.currentMasks = k'.currentMasks) :
    keyEvent e k = keyEvent e k' ∧ (handleKeychange e k).currentMasks = (handleKeychange e k').currentMasks := by
  simp only [keyEvent, handleKeychange, Function.update_self, h, and_self]

/-- What a run has made of the acts so far. -/
structure Console.Follows (s : Terminal) (acts : List ConsoleAct) (c : Console) : Prop where
  line : LineAt (session (lineWidth s) c.log).1 c.terminal
  commands : c.commands = (session (lineWidth s) c.log).2
  width : c.terminal.maxCharX = s.maxCharX
  ring : c.history.Holds (List.range c.history.returned.length)
  produced : c.history.produced = eventsOf poweredOn.keyboard (codesOf acts)
  masks : c.history.keyboard.currentMasks = (keyboardAfter (codesOf acts)).currentMasks
  typed : c.log.filterMap LineEvent.char? = typedChars (c.history.returned.map Prod.snd)

namespace Console.Follows

variable {acts : List ConsoleAct} {a : ConsoleAct} {c c' : Console}

lemma start (hs : FreshLine s) (h2 : 2 ≤ s.maxCharX) : Follows s [] (startConsole s) :=
  ⟨.fresh hs h2, rfl, rfl, .poweredOn, rfl, rfl, rfl⟩

lemma codesOf_snoc : codesOf (acts ++ [a]) = codesOf acts ++ a.code?.toList := by
  rw [codesOf, List.filterMap_append, List.filterMap_cons, List.filterMap_nil]
  cases a.code?
  all_goals rfl

lemma typed_chars (text : List UInt8) : (text.map LineEvent.char).filterMap LineEvent.char? = text := by
  rw [List.filterMap_map]
  exact List.filterMap_some

lemma step (h : Follows s acts c) (h3 : 3 ≤ s.maxCharX) (h127 : s.maxCharX ≤ 127) (ha : RoomyConsole c a c') :
    Follows s (acts ++ [a]) c' := by
  obtain ⟨hstep, hroom, -⟩ := ha
  cases hstep with
  | key hne hkey =>
    have hring := h.ring.step_room hroom hkey
    cases hkey with
    | keychange e =>
      have hcode : codesOf (acts ++ [.key (.keychange e)]) = codesOf acts ++ [e] := codesOf_snoc
      obtain ⟨hevent, hmasks⟩ := keyEvent_congr (e := e) h.masks
      refine ⟨h.line, h.commands, h.width, hring, ?_, ?_, h.typed⟩
      · rw [hcode, eventsOf_snoc, ← h.produced]
        exact congrArg (fun x => c.history.produced ++ [x]) hevent
      · rw [hcode, keyboardAfter_snoc]
        exact hmasks
    | empty =>
      have hcode : codesOf (acts ++ [.key .empty]) = codesOf acts := codesOf_snoc.trans (List.append_nil _)
      exact ⟨h.line, h.commands, h.width, hring, hcode ▸ h.produced, hcode ▸ h.masks, h.typed⟩
    | enter =>
      have hcode : codesOf (acts ++ [.key .enter]) = codesOf acts := codesOf_snoc.trans (List.append_nil _)
      exact ⟨h.line, h.commands, h.width, hring, hcode ▸ h.produced, hcode ▸ h.masks, h.typed⟩
    | take => exact absurd rfl hne
  | @take history stack terminal action hkey hhandle =>
    have hring := h.ring.step_room hroom hkey
    have hcode : codesOf (acts ++ [.key .take]) = codesOf acts := codesOf_snoc.trans (List.append_nil _)
    rw [← h.width] at h3 h127
    obtain ⟨hx, line', hline, hfold⟩ := h.line.handle h3 h127 hhandle c.commands
    have hsession : session (lineWidth s) (c.log ++ (typedChars [(takeKeycode c.history.keyboard).1]).map .char) =
        (line', c.commands ++ action.toList) := by
      rw [session, List.foldl_append, ← hfold, lineWidth, lineWidth, h.width]
      congr 1
      exact Prod.ext rfl h.commands.symm
    cases hkey with
    | take =>
      refine ⟨?_, ?_, hx.trans h.width, hring, hcode ▸ h.produced, hcode ▸ h.masks, ?_⟩
      · rw [hsession]
        exact hline
      · rw [hsession]
      · rw [List.filterMap_append, h.typed, typed_chars, List.map_append, typedChars_append]
        rfl
  | @print call terminal hprint =>
    have hcode : codesOf (acts ++ [.print call]) = codesOf acts := codesOf_snoc.trans (List.append_nil _)
    have hsame := PrintfCall.sameLine hprint
    cases hdraws : call.draws with
    | true =>
      rw [hdraws, if_pos rfl] at hsame
      have hsession : session (lineWidth s) (c.log ++ [.wipe]) =
          ((session (lineWidth s) c.log).1.map fun _ => 0, (session (lineWidth s) c.log).2) := session_snoc
      rw [if_pos rfl]
      refine ⟨?_, h.commands.trans (congrArg Prod.snd hsession).symm, hsame.2.2.trans h.width, h.ring, hcode ▸ h.produced,
        hcode ▸ h.masks, ?_⟩
      · rw [hsession]
        exact h.line.wipe.same hsame
      · rw [List.filterMap_append, h.typed]
        exact List.append_nil _
    | false =>
      rw [hdraws] at hsame
      rw [if_neg Bool.false_ne_true, List.append_nil]
      exact ⟨h.line.same hsame, h.commands, hsame.2.2.trans h.width, h.ring, hcode ▸ h.produced, hcode ▸ h.masks, h.typed⟩

lemma run (hs : FreshLine s) (h3 : 3 ≤ s.maxCharX) (h127 : s.maxCharX ≤ 127) (h : Run RoomyConsole (startConsole s) acts c) :
    Follows s acts c := by
  induction h with
  | nil => exact start hs (by omega)
  | snoc _ ha ih => exact ih.step h3 h127 ha

end Console.Follows

end WordOS.Programs
