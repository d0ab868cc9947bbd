import WordOS.Kernel.Serial
import WordOS.Lib.Numerals

/-! Which numbers are logged as they are. -/

namespace WordOS.Kernel

open Machine Lib.Loops Lib.Numerals Lib.Reversal Memory

def digitValue (ch : UInt8) : ℕ := if ch < 58 then ch.toNat - 48 else ch.toNat - 87

structure IsNumeral (base n : ℕ) (text : List UInt8) : Prop where
  digits : text = numeral digitChar base n
  shortest : n ≠ 0 → text.head? ≠ some 48
  reads : value digitValue base text = n

variable {base num n fuel start : ℕ} {final stack : ℕ → UInt8} {l : List UInt8}

lemma digitChar_value {d : ℕ} (h : d < 16) : digitValue (digitChar d) = d := by
  interval_cases d <;> rfl

lemma digitChar_ne_zero {d : ℕ} (h : d < 16) : digitChar d ≠ 0 := by
  interval_cases d <;> decide

lemma isNumeral (hb : 1 < base) (h16 : base ≤ 16) (n : ℕ) : IsNumeral base n (numeral digitChar base n) where
  digits := rfl
  shortest hn := by
    obtain ⟨d, hpos, hd, hhead⟩ := numeral_head digitChar hb hn
    rw [hhead, ne_eq, Option.some.injEq]
    intro h
    have hval := congrArg digitValue h
    rw [digitChar_value (by omega)] at hval
    exact absurd hval (Nat.pos_iff_ne_zero.mp hpos)
  reads := value_numeral hb (fun d hd => digitChar_value (by omega)) n

lemma getFinal_of_lt {i : ℕ} (h : i < 64) : getFinal final i = .ok (final i) := if_pos h

lemma setFinal_of_lt {i : ℕ} (h : i < 64) (ch : UInt8) : setFinal final i ch = .ok (Function.update final i ch) := if_pos h

lemma digitBody_of_ne (h : num ≠ 0) {i : ℕ} (hi : i < 64) : digitBody base ⟨num, i, final⟩ =
    .ok (some ⟨num / base, i + 1, Function.update final i (digitChar (num % base))⟩) := by
  simp only [digitBody, h, if_false, setFinal_of_lt hi, ok_bind, pure_eq, u32_eq (show i + 1 < 2 ^ 32 by omega)]

/-- The digits stand behind the text `l`, the least significant one first. -/
lemma digits_run (num fuel : ℕ) (hb : 1 < base) (hl : Spells final 0 l) (hroom : l.length + (Nat.digits base num).length < 64)
    (hfuel : (Nat.digits base num).length < fuel) : ∃ final',
      loop .fuel (digitBody base) fuel ⟨num, l.length, final⟩ = .ok ⟨0, l.length + (Nat.digits base num).length, final'⟩ ∧
      Spells final' 0 (l ++ (Nat.digits base num).map digitChar) := by
  induction fuel generalizing num l final with
  | zero => omega
  | succ fuel ih =>
    by_cases hnum : num = 0
    · subst hnum
      rw [Nat.digits_zero, List.map_nil, List.append_nil, List.length_nil, Nat.add_zero]
      exact ⟨final, loop_leave rfl, hl⟩
    · have hdigits := Nat.digits_def' hb (Nat.pos_of_ne_zero hnum)
      rw [hdigits, List.length_cons] at hroom hfuel
      have hl' : Spells (Function.update final l.length (digitChar (num % base))) 0 (l ++ [digitChar (num % base)]) := by
        have hh := hl.snoc (a := digitChar (num % base))
        rwa [Nat.zero_add] at hh
      have hlen : (l ++ [digitChar (num % base)]).length = l.length + 1 := List.length_append
      obtain ⟨final', hrun, hspell⟩ := ih (num / base) hl' (by omega) (by omega)
      refine ⟨final', ?_, ?_⟩
      · rw [loop_pass (digitBody_of_ne hnum (by omega)), ← hlen, hrun, hdigits, List.length_cons, hlen]
        congr 2
        omega
      · rw [hdigits, List.map_cons, ← List.singleton_append, ← List.append_assoc]
        exact hspell

lemma swapBody_of_le {j k : ℕ} (h : j ≤ k) (hk : k < 64) (hpos : 0 < k) : swapBody ⟨j, k, final⟩ =
    .ok (some ⟨j + 1, k - 1, Function.update (Function.update final j (final k)) k (final j)⟩) := by
  have hprev : u32 (k + 2 ^ 32 - 1) = k - 1 := by
    rw [u32]
    omega
  simp only [swapBody, h, if_true, getFinal_of_lt (show j < 64 by omega), getFinal_of_lt hk, ok_bind,
    setFinal_of_lt (show j < 64 by omega), setFinal_of_lt hk, pure_eq, u32_eq (show j + 1 < 2 ^ 32 by omega), hprev]

lemma swaps_run (final : ℕ → UInt8) (fuel : ℕ) {j k : ℕ} (hjk : j ≤ k + 1) (hk : k < 64) (hpos : 0 < k ∨ k < j) (hfuel : k + 1 < j + fuel) : ∃ j' k',
    loop .fuel swapBody fuel ⟨j, k, final⟩ = .ok ⟨j', k', mirrored final j k⟩ := by
  induction fuel generalizing j k final with
  | zero => omega
  | succ fuel ih =>
    by_cases hlt : j < k
    · rw [loop_pass (swapBody_of_le hlt.le hk (by omega)), ← mirrored_swap hlt]
      exact ih _ (by omega) (by omega) (by omega) (by omega)
    · rw [mirrored_of_le (not_lt.mp hlt)]
      by_cases heq : j = k
      · -- the middle digit changes places with itself
        subst heq
        obtain ⟨fuel, rfl⟩ : ∃ m, fuel = m + 1 := ⟨fuel - 1, by omega⟩
        rw [loop_pass (swapBody_of_le le_rfl hk (by omega)), Function.update_eq_self, Function.update_eq_self]
        exact ⟨j + 1, j - 1, loop_leave (if_neg (by dsimp only; omega))⟩
      · exact ⟨j, k, loop_leave (if_neg (by dsimp only; omega))⟩

/-- `writeDigits` behind a text `l` that starts the array; nothing has to be turned round when there is no digit. -/
lemma writeDigits_run (num : ℕ) (hb : 1 < base) (hnum : num < 2 ^ 32) (hl : Spells final 0 l) (hlen : l.length ≤ 2)
    (hswap : 2 ≤ l.length + (Nat.digits base num).length) : ∃ final', writeDigits base l.length num final = .ok final' ∧
      Spells final' 0 (l ++ (Nat.digits base num).reverse.map digitChar) ∧
      final' (l.length + (Nat.digits base num).length) = 0 := by
  have hmost : (Nat.digits base num).length ≤ 32 :=
    length_digits_le hb (hnum.trans_le (Nat.pow_le_pow_left hb 32))
  obtain ⟨filled, hdigits, hspell⟩ := digits_run num 33 hb hl (by omega) (by omega)
  set m := (Nat.digits base num).length with hm
  obtain ⟨j, k, hswaps⟩ := swaps_run filled 65 (show l.length ≤ l.length + m - 1 + 1 by omega) (by omega) (by omega) (by omega)
  have hk : u32 (l.length + m + 2 ^ 32 - 1) = l.length + m - 1 := by
    rw [u32]
    omega
  refine ⟨Function.update (mirrored filled l.length (l.length + m - 1)) (l.length + m) 0, ?_, ?_, ?_⟩
  · simp only [writeDigits, hdigits, ok_bind, hk, hswaps, setFinal_of_lt (show l.length + m < 64 by omega)]
  · have hleft := hspell.left
    have hright := hspell.right.reverse
    rw [Nat.zero_add, List.length_map, ← hm, ← List.map_reverse] at hright
    apply Spells.append
    · apply hleft.congr
      intro i hi
      rw [Function.update_of_ne (by omega), mirrored, if_neg (by omega)]
    · rw [Nat.zero_add]
      apply hright.congr
      intro i hi
      rw [List.length_map, List.length_reverse] at hi
      exact Function.update_of_ne (by omega) ..
  · exact Function.update_self ..

lemma writeDigits_text (base num : ℕ) (hb : 1 < base) (h16 : base ≤ 16) (hnum : num < 2 ^ 32) (hl : Spells final 0 l) (hlen : l.length ≤ 2)
    (hswap : 2 ≤ l.length + (Nat.digits base num).length) (hne : 0 ∉ l) :
    (writeDigits base l.length num final >>= fun f => .ok (cString f 64)) =
      .ok (l ++ (Nat.digits base num).reverse.map digitChar) := by
  obtain ⟨final', hrun, hspell, hend⟩ := writeDigits_run num hb hnum hl hlen hswap
  have hmost : (Nat.digits base num).length ≤ 32 :=
    length_digits_le hb (hnum.trans_le (Nat.pow_le_pow_left hb 32))
  have hstring : IsString final' (l ++ (Nat.digits base num).reverse.map digitChar) := by
    refine ⟨hspell, ?_, fun ch hch => ?_⟩
    · rw [List.length_append, List.length_map, List.length_reverse]
      exact hend
    · rcases List.mem_append.mp hch with hch | hch
      · exact ne_of_mem_of_not_mem hch hne
      · obtain ⟨d, hd, rfl⟩ := List.mem_map.mp hch
        exact digitChar_ne_zero ((Nat.digits_lt_base hb (List.mem_reverse.mp hd)).trans_le h16)
  rw [hrun, ok_bind, hstring.cString]
  rw [List.length_append, List.length_map, List.length_reverse]
  omega

lemma toNat_ne_zero {number : UInt64} (h : number ≠ 0) : number.toNat ≠ 0 := fun he => h (UInt64.toNat_inj.mp he)

lemma printHex_eq {number : UInt64} (h : number ≠ 0) :
    printHex stack number = .ok (48 :: 120 :: (Nat.digits 16 (u32 number.toNat)).reverse.map digitChar) := by
  have hl : Spells (Function.update (Function.update stack 0 48) 1 120) 0 [48, 120] := by
    intro i hi
    have hi' : i = 0 ∨ i = 1 := by
      rw [List.length_cons, List.length_singleton] at hi
      omega
    rcases hi' with rfl | rfl
    · rfl
    · rfl
  have hrun := writeDigits_text 16 (u32 number.toNat) (by decide) le_rfl (Nat.mod_lt _ (by decide)) hl
    le_rfl (Nat.le_add_right ..) (by decide)
  rw [printHex, if_neg h, setFinal_of_lt (by decide), ok_bind, setFinal_of_lt (by decide), ok_bind]
  exact hrun

lemma printHex_numeral {number : UInt64} (h : number.toNat < 2 ^ 32) :
    printHex stack number = .ok (48 :: 120 :: numeral digitChar 16 number.toNat) := by
  by_cases h0 : number = 0
  · subst h0
    rfl
  · rw [printHex_eq h0, u32_eq h, numeral_of_ne (toNat_ne_zero h0)]

lemma numeral_digit {d : ℕ} (h : d < base) : numeral digitChar base d = [digitChar d] := by
  by_cases h0 : d = 0
  · rw [h0, numeral, if_pos rfl]
  · rw [numeral_of_ne h0, Nat.digits_of_lt _ _ h0 h]
    rfl

lemma logInteger_eq {number : UInt64} (h : ¬ number < 10) (hlow : 10 ≤ u32 number.toNat) :
    logIntegerToSerial stack number = .ok (numeral digitChar 10 (u32 number.toNat)) := by
  have htwo : 2 ≤ (Nat.digits 10 (u32 number.toNat)).length :=
    (Nat.lt_digits_length_iff (by decide) _).mpr (by rwa [pow_one])
  have hrun := writeDigits_text 10 (u32 number.toNat) (by decide) (by decide) (Nat.mod_lt _ (by decide))
    (Spells.nil stack 0) (Nat.zero_le 2) (by rwa [List.length_nil, Nat.zero_add]) List.not_mem_nil
  rw [logIntegerToSerial, if_neg h, numeral_of_ne (by omega)]
  exact hrun

lemma logInteger_numeral {number : UInt64} (h : number.toNat < 2 ^ 32) :
    logIntegerToSerial stack number = .ok (numeral digitChar 10 number.toNat) := by
  by_cases h10 : number < 10
  · have hlt : number.toNat < 10 := h10
    have hdigit : digitChar number.toNat = 48 + number.toUInt8 := if_pos hlt
    rw [logIntegerToSerial, if_pos h10, setFinal_of_lt (by decide), ok_bind, setFinal_of_lt (by decide), ok_bind,
      numeral_digit hlt, hdigit, pure_eq]
    congr 1
    apply IsString.cString
    · refine ⟨fun i hi => ?_, rfl, fun ch hch => ?_⟩
      · obtain rfl : i = 0 := Nat.lt_one_iff.mp hi
        rfl
      · rw [List.mem_singleton.mp hch, ← hdigit]
        exact digitChar_ne_zero (by omega)
    · exact Nat.lt_of_lt_of_le Nat.one_lt_two (by decide)
  · have hlow : u32 number.toNat = number.toNat := u32_eq h
    have hge : 10 ≤ number.toNat := not_lt.mp h10
    rw [logInteger_eq h10 (by rwa [hlow]), hlow]

lemma swapBody_fault {j k : ℕ} (hj : j < 64) (hk : 64 ≤ k) : swapBody ⟨j, k, final⟩ = .error .fault := by
  have hread : getFinal final k = .error .fault := if_neg (not_lt.mpr hk)
  simp only [swapBody, show j ≤ k by omega, if_true, getFinal_of_lt hj, ok_bind, hread, error_bind]

/-- With a single digit in the lower half, or none, the second index passes below zero. -/
lemma logInteger_fault {number : UInt64} (h : ¬ number < 10) (hlow : u32 number.toNat < 10) :
    logIntegerToSerial stack number = .error .fault := by
  rw [logIntegerToSerial, if_neg h]
  generalize u32 number.toNat = num at hlow
  have hbelow : u32 (0 + 2 ^ 32 - 1) = 4294967295 := by norm_num [u32]
  have hwrite : writeDigits 10 0 num stack = .error .fault := by
    by_cases h0 : num = 0
    · have hdigits : loop .fuel (digitBody 10) 33 ⟨num, 0, stack⟩ = .ok ⟨num, 0, stack⟩ := loop_leave (if_pos h0)
      have hswaps : loop .fuel swapBody 65 ⟨0, 4294967295, stack⟩ = .error .fault :=
        loop_error (swapBody_fault (by decide) (by decide))
      simp only [writeDigits, hdigits, ok_bind, hbelow, hswaps, error_bind]
    · have hdigits : loop .fuel (digitBody 10) 33 ⟨num, 0, stack⟩ =
          .ok ⟨num / 10, 1, Function.update stack 0 (digitChar (num % 10))⟩ := by
        rw [loop_pass (digitBody_of_ne h0 (by decide))]
        exact loop_leave (if_pos (Nat.div_eq_of_lt hlow))
      have hone : u32 (1 + 2 ^ 32 - 1) = 0 := by norm_num [u32]
      have hpass : ∀ f : ℕ → UInt8, swapBody ⟨0, 0, f⟩ = .ok (some ⟨1, 4294967295, f⟩) := by
        intro f
        simp only [swapBody, le_refl, if_true, getFinal_of_lt (show 0 < 64 by decide), ok_bind,
          setFinal_of_lt (show 0 < 64 by decide), pure_eq, hbelow, Function.update_eq_self, u32_eq (show 0 + 1 < 2 ^ 32 by decide)]
      have hswaps : ∀ f : ℕ → UInt8, loop .fuel swapBody 65 ⟨0, 0, f⟩ = .error .fault := by
        intro f
        rw [loop_pass (hpass f)]
        exact loop_error (swapBody_fault (by decide) (by decide))
      simp only [writeDigits, hdigits, ok_bind, hone, hswaps, error_bind]
  rw [hwrite]
  rfl

/-- `print_hex` logs `0x` and the number, with every access of `final` in range. -/
def LogsHex (stack : ℕ → UInt8) (number : UInt64) : Prop :=
  ∃ text, printHex stack number = .ok (48 :: 120 :: text) ∧ IsNumeral 16 number.toNat text

def LogsDecimal (stack : ℕ → UInt8) (number : UInt64) : Prop :=
  ∃ text, logIntegerToSerial stack number = .ok text ∧ IsNumeral 10 number.toNat text

lemma logsHex_iff (stack : ℕ → UInt8) (number : UInt64) : LogsHex stack number ↔ number.toNat < 2 ^ 32 := by
  constructor
  · rintro ⟨text, hlog, hnum⟩
    by_contra hge
    have h0 : number ≠ 0 := by
      rintro rfl
      exact hge (by decide)
    rw [printHex_eq h0] at hlog
    obtain rfl : _ = text := List.tail_eq_of_cons_eq (List.tail_eq_of_cons_eq (Except.ok.inj hlog))
    have hlow : value digitValue 16 ((Nat.digits 16 (u32 number.toNat)).reverse.map digitChar) = u32 number.toNat := by
      rw [value_reverse _ fun d hd => digitChar_value (Nat.digits_lt_base (by decide) hd), Nat.ofDigits_digits]
    have hsame := hlow.symm.trans hnum.reads
    have hlt : u32 number.toNat < 2 ^ 32 := Nat.mod_lt _ (by decide)
    omega
  · intro h
    exact ⟨_, printHex_numeral h, isNumeral (by decide) le_rfl _⟩

lemma logsDecimal_iff (stack : ℕ → UInt8) (number : UInt64) : LogsDecimal stack number ↔ number.toNat < 2 ^ 32 := by
  constructor
  · rintro ⟨text, hlog, hnum⟩
    by_contra hge
    have h10 : ¬ number < 10 := fun h => hge (lt_trans (show number.toNat < 10 from h) (by decide))
    by_cases hlow : 10 ≤ u32 number.toNat
    · rw [logInteger_eq h10 hlow] at hlog
      have hsame := (isNumeral (show 1 < 10 by decide) (by decide) (u32 number.toNat)).reads
      rw [Except.ok.inj hlog, hnum.reads] at hsame
      have hlt : u32 number.toNat < 2 ^ 32 := Nat.mod_lt _ (by decide)
      omega
    · rw [logInteger_fault h10 (by omega)] at hlog
      cases hlog
  · intro h
    exact ⟨_, logInteger_numeral h, isNumeral (by decide) (by decide) _⟩

/-- Numbers are logged as they are when they fit into 32 bits. -/
theorem log_numerals_iff (stack : ℕ → UInt8) (number : UInt64) :
    LogsHex stack number ∧ LogsDecimal stack number ↔ number.toNat < 2 ^ 32 := by
  rw [logsHex_iff, logsDecimal_iff, and_self]

/-- Of 2 ^ 32 only the prefix is logged in base 16, and in base 10 the array is left. -/
theorem log_numerals_not : ¬ (LogsHex (fun _ => 0) 0x100000000 ∧ LogsDecimal (fun _ => 0) 0x100000000) ∧
    printHex (fun _ => 0) 0x100000000 = .ok [48, 120] ∧
    logIntegerToSerial (fun _ => 0) 0x100000000 = .error .fault := by
  refine ⟨fun h => ?_, ?_, ?_⟩
  · exact absurd ((logsHex_iff _ _).mp h.1) (by decide)
  · rw [printHex_eq (by decide)]
    rfl
  · exact logInteger_fault (by decide) (by decide)

end WordOS.Kernel
