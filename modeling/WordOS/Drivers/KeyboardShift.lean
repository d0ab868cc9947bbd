import WordOS.Drivers.KeyboardCodes
import WordOS.Drivers.KeyboardRuns

/-! `SHIFT_MASK` of the recorded events against the shift keys that are held down. -/

namespace WordOS.Drivers

/-- The byte of a code without a prefix. -/
def code (e : KeyInput) : ℕ := e.inportb 0 % 256

def LEFT_SHIFT : ℕ := 0x2A
def RIGHT_SHIFT : ℕ := 0x36

def keyboardAfter (inputs : List KeyInput) : Keyboard :=
  inputs.foldl (fun s e => handleKeychange e s) poweredOn.keyboard

/-- The keys held down after the codes `inputs`. -/
def held (inputs : List KeyInput) : ℕ → Bool :=
  inputs.foldl (fun keys e => Function.update keys (code e % 0x80) (decide (code e < 0x80))) fun _ => false

def shiftHeld (inputs : List KeyInput) : Bool := held inputs LEFT_SHIFT || held inputs RIGHT_SHIFT

def ShiftTold (before : List KeyInput) (e : KeyInput) : Prop :=
  (keyEvent e (keyboardAfter before)).masks &&& SHIFT_MASK ≠ 0 ↔ shiftHeld (before ++ [e]) = true

/-- One of the shift keys goes up while the other one is down. -/
def ReleasesOne (before : List KeyInput) (e : KeyInput) : Prop :=
  code e = 0x80 + LEFT_SHIFT ∧ held before RIGHT_SHIFT = true ∨ code e = 0x80 + RIGHT_SHIFT ∧ held before LEFT_SHIFT = true

variable {e : KeyInput} {s : Keyboard} {inputs before : List KeyInput}

lemma keyboardAfter_snoc : keyboardAfter (inputs ++ [e]) = handleKeychange e (keyboardAfter inputs) := by
  simp only [keyboardAfter, List.foldl_append, List.foldl_cons, List.foldl_nil]

lemma held_snoc : held (inputs ++ [e]) = Function.update (held inputs) (code e % 0x80) (decide (code e < 0x80)) := by
  simp only [held, List.foldl_append, List.foldl_cons, List.foldl_nil]

lemma lookupKey_shift (e : KeyInput) {i : ℕ} (h : i < 89) :
    lookupKey e i = KernelScancode.keyShift.ctorIdx ↔ i = LEFT_SHIFT ∨ i = RIGHT_SHIFT := by
  have htable : ∀ j : Fin 89, (keyLookup.get j).ctorIdx = KernelScancode.keyShift.ctorIdx ↔
      j.val = LEFT_SHIFT ∨ j.val = RIGHT_SHIFT := by decide
  have hget : keyLookup[i]? = some (keyLookup.get ⟨i, h⟩) := List.getElem?_eq_getElem h
  rw [lookupKey, hget]
  exact htable ⟨i, h⟩

lemma handleKeychange_masks (h : code e % 0x80 < 89) : (handleKeychange e s).currentMasks =
    if code e % 0x80 = LEFT_SHIFT ∨ code e % 0x80 = RIGHT_SHIFT then
      if 0x80 < code e then s.currentMasks &&& (0xFF - SHIFT_MASK) else s.currentMasks ||| SHIFT_MASK
    else s.currentMasks := by
  have hne : code e ≠ 0xE0 := fun he => by
    rw [he] at h
    omega
  have hread : readCodes e 4 0 (fun i => if i < 4 then 0 else e.heapByte % 256) =
      (Function.update (fun i => if i < 4 then 0 else e.heapByte % 256) 0 (code e), 0) := by
    simp only [readCodes, code] at hne ⊢
    simp only [hne, ne_eq, not_false_eq_true, if_true]
  simp only [handleKeychange, hread, Function.update_self, lookupKey_shift e h, gt_iff_lt]
  by_cases hup : 0x80 < code e
  · simp only [hup, if_true, RELEASE_MASK, ne_eq, Nat.and_self, OfNat.ofNat_ne_zero, not_false_eq_true]
  · simp only [hup, if_false, RELEASE_MASK, ne_eq, Nat.zero_and, not_true_eq_false]

lemma keyEvent_shift : (keyEvent e s).masks &&& SHIFT_MASK = (handleKeychange e s).currentMasks &&& SHIFT_MASK := by
  have hmasks : (keyEvent e s).masks =
      (if (keyCodes e).1 (keyCodes e).2 > 0x80 then RELEASE_MASK else 0) ||| (handleKeychange e s).currentMasks := by
    simp only [keyEvent, handleKeychange, Function.update_self]
    rfl
  have hbit : (if (keyCodes e).1 (keyCodes e).2 > 0x80 then RELEASE_MASK else 0) &&& SHIFT_MASK = 0 := by
    split
    · rfl
    · rfl
  rw [hmasks, Nat.and_or_distrib_right, hbit, Nat.zero_or]

lemma shiftHeld_left (h : code e % 0x80 = LEFT_SHIFT) :
    shiftHeld (before ++ [e]) = (decide (code e < 0x80) || held before RIGHT_SHIFT) := by
  rw [shiftHeld, held_snoc, h, Function.update_self, Function.update_of_ne (by decide)]

lemma shiftHeld_right (h : code e % 0x80 = RIGHT_SHIFT) :
    shiftHeld (before ++ [e]) = (held before LEFT_SHIFT || decide (code e < 0x80)) := by
  rw [shiftHeld, held_snoc, h, Function.update_self, Function.update_of_ne (by decide)]

lemma shiftHeld_other (hl : code e % 0x80 ≠ LEFT_SHIFT) (hr : code e % 0x80 ≠ RIGHT_SHIFT) :
    shiftHeld (before ++ [e]) = shiftHeld before := by
  rw [shiftHeld, held_snoc, Function.update_of_ne hl.symm, Function.update_of_ne hr.symm, shiftHeld]

lemma code_cases (e : KeyInput) : code e = LEFT_SHIFT ∨ code e = 0x80 + LEFT_SHIFT ∨ code e = RIGHT_SHIFT ∨
    code e = 0x80 + RIGHT_SHIFT ∨ code e % 0x80 ≠ LEFT_SHIFT ∧ code e % 0x80 ≠ RIGHT_SHIFT := by
  have hlt : code e < 256 := Nat.mod_lt _ (by decide)
  simp only [LEFT_SHIFT, RIGHT_SHIFT]
  omega

/-- As long as no shift key goes up beside the other one, `current_masks` tells whether one is held. -/
lemma currentMasks_eq (ht : ∀ e ∈ inputs, code e % 0x80 < 89)
    (hc : ∀ before e after, inputs = before ++ e :: after → ¬ ReleasesOne before e) :
    (keyboardAfter inputs).currentMasks = bif shiftHeld inputs then SHIFT_MASK else 0 := by
  induction inputs using List.reverseRecOn with
  | nil => rfl
  | append_singleton before e ih =>
    have hmasks := ih (fun e he => ht e (List.mem_append_left _ he)) fun b e' a hb =>
      hc b e' (a ++ [e]) (by rw [hb, List.append_assoc, List.cons_append])
    have hone := hc before e [] rfl
    simp only [ReleasesOne, not_or, not_and, Bool.not_eq_true] at hone
    have hbits : ∀ b, (bif b then SHIFT_MASK else 0) ||| SHIFT_MASK = SHIFT_MASK ∧
        (bif b then SHIFT_MASK else 0) &&& (0xFF - SHIFT_MASK) = 0 := by decide
    rw [keyboardAfter_snoc, handleKeychange_masks (ht e (List.mem_append_right _ (List.mem_singleton_self e))), hmasks]
    rcases code_cases e with hdown | hup | hdown | hup | ⟨hleft, hright⟩
    · rw [shiftHeld_left (by rw [hdown]; rfl), hdown]
      exact (hbits _).1
    · rw [shiftHeld_left (by rw [hup]; rfl), hone.1 hup, hup]
      exact (hbits _).2
    · rw [shiftHeld_right (by rw [hdown]; rfl), hdown, decide_eq_true (by decide), Bool.or_true]
      exact (hbits _).1
    · rw [shiftHeld_right (by rw [hup]; rfl), hone.2 hup, hup]
      exact (hbits _).2
    · rw [shiftHeld_other hleft hright, if_neg (not_or.mpr ⟨hleft, hright⟩)]

lemma not_told (ht : code e % 0x80 < 89) (h : ReleasesOne before e) : ¬ ShiftTold before e := by
  have hgone : ∀ m : ℕ, m &&& (0xFF - SHIFT_MASK) &&& SHIFT_MASK = 0 := fun m => by
    rw [Nat.and_assoc]
    exact Nat.and_zero m
  rw [ShiftTold, keyEvent_shift, handleKeychange_masks ht]
  rcases h with ⟨hup, hother⟩ | ⟨hup, hother⟩
  · rw [shiftHeld_left (by rw [hup]; rfl), hother, Bool.or_true, hup]
    exact fun h => h.mpr rfl (hgone _)
  · rw [shiftHeld_right (by rw [hup]; rfl), hother, Bool.true_or, hup]
    exact fun h => h.mpr rfl (hgone _)

/-- Every event tells the state of the shift keys just when none of them ever goes up beside the other one. -/
theorem shift_told_iff (inputs : List KeyInput) (ht : ∀ e ∈ inputs, code e % 0x80 < 89) :
    (∀ before e after, inputs = before ++ e :: after → ShiftTold before e) ↔
      ∀ before e after, inputs = before ++ e :: after → ¬ ReleasesOne before e := by
  constructor
  · intro htold before e after hsplit hone
    have hkey := ht e (hsplit ▸ List.mem_append_right _ (List.mem_cons_self ..))
    exact not_told hkey hone (htold before e after hsplit)
  · intro hclean before e after hsplit
    have hmasks : (keyboardAfter (before ++ [e])).currentMasks = bif shiftHeld (before ++ [e]) then SHIFT_MASK else 0 := by
      apply currentMasks_eq
      · intro e' he'
        apply ht e'
        rw [hsplit, ← List.singleton_append, ← List.append_assoc]
        exact List.mem_append_left _ he'
      · intro b e' a hb
        apply hclean b e' (a ++ after)
        rw [hsplit, ← List.singleton_append, ← List.append_assoc, hb, List.append_assoc, List.cons_append]
    rw [ShiftTold, keyEvent_shift, ← keyboardAfter_snoc, hmasks]
    cases shiftHeld (before ++ [e]) <;> decide

def byteInput (byte : ℕ) : KeyInput := ⟨fun _ => byte, 0, fun _ => 0⟩

/-- The key A is pressed while the left shift key is down, and both are released. -/
theorem shift_told_iff_left : ShiftTold [byteInput 0x2A] (byteInput 0x1E) := by
  refine (shift_told_iff ([0x2A, 0x1E, 0x9E, 0xAA].map byteInput) (by decide)).mpr ?_ [byteInput 0x2A] (byteInput 0x1E)
    [byteInput 0x9E, byteInput 0xAA] rfl
  rintro before e after hsplit (⟨-, hother⟩ | ⟨hup, -⟩)
  · have hnever : ∀ k ≤ 4, held (([0x2A, 0x1E, 0x9E, 0xAA].map byteInput).take k) RIGHT_SHIFT = false := by decide
    have hlen := congrArg List.length hsplit
    simp only [List.length_map, List.length_append, List.length_cons, List.length_nil] at hlen
    have hb := hnever before.length (by omega)
    rw [hsplit, List.take_left, hother] at hb
    cases hb
  · have hnever : ∀ e ∈ [0x2A, 0x1E, 0x9E, 0xAA].map byteInput, code e ≠ 0x80 + RIGHT_SHIFT := by decide
    exact hnever e (hsplit ▸ List.mem_append_right _ (List.mem_cons_self ..)) hup

/-- Both shift keys go down and the left one up again: the right one is still held. -/
theorem shift_not_told : ¬ ∀ before e after, [0x2A, 0x36, 0xAA].map byteInput = before ++ e :: after → ShiftTold before e := by
  intro h
  exact not_told (by decide) (Or.inl ⟨rfl, rfl⟩) (h [byteInput 0x2A, byteInput 0x36] (byteInput 0xAA) [] rfl)

end WordOS.Drivers
