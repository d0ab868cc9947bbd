import WordOS.Acpi.Madt

/-! A MADT that is made of entries: the counters and the lookups agree with its list. -/

namespace WordOS.Acpi

open Machine Memory Lib.Bytes Lib.Loops

structure MadtEntry where
  type : UInt8
  payload : List UInt8
  short : payload.length + 2 < 256

namespace MadtEntry

/-- `Length`, with the two bytes of the head. -/
def length (e : MadtEntry) : ℕ := e.payload.length + 2

/-- `e` stands at `a`. -/
structure At (m : Mem) (a : ℕ) (e : MadtEntry) : Prop where
  type : byteAt m a = e.type.toNat
  length : byteAt m (a + 1) = e.length
  payload : ∀ i (hi : i < e.payload.length), byteAt m (a + 2 + i) = e.payload[i].toNat

end MadtEntry

/-- The entries stand one behind another from `a` on. -/
def Listed (m : Mem) : (a : ℕ) → List MadtEntry → Prop
  | _, [] => True
  | a, e :: l => e.At m a ∧ Listed m (a + e.length) l

def placed : (a : ℕ) → List MadtEntry → List (ℕ × MadtEntry)
  | _, [] => []
  | a, e :: l => (a, e) :: placed (a + e.length) l

def ofType (id : UInt8) (l : List MadtEntry) : List MadtEntry := l.filter fun e => e.type = id

def placedOfType (id : UInt8) (a : ℕ) (l : List MadtEntry) : List (ℕ × MadtEntry) := (placed a l).filter fun p => p.2.type = id

/-- The table consists of its head and these entries. -/
structure Madt.Made (t : Madt) (l : List MadtEntry) : Prop where
  listed : Listed t.mem t.entries l
  length : t.length = 44 + (l.map MadtEntry.length).sum

/-- What the two functions tell about the entries of one type. -/
structure Tells (n : ℕ) (t : Madt) (l : List MadtEntry) (counts : ℕ → UInt8) (id : UInt8) : Prop where
  count : (counts id.toNat).toNat = (ofType id l).length
  entry : ∀ num, getMadtEntry n t id num = .ok ((placedOfType id t.entries l)[num.toNat]?.map fun p => p.1 + 2)
  payload : ∀ p ∈ placedOfType id t.entries l, p.2.At t.mem p.1
  isSome_iff : ∀ num : UInt8, (placedOfType id t.entries l)[num.toNat]?.isSome ↔ num < counts id.toNat

variable {t : Madt} {l : List MadtEntry} {e : MadtEntry} {a n : ℕ} {id num count : UInt8} {counts : ℕ → UInt8}

lemma placed_at {m : Mem} {p : ℕ × MadtEntry} (h : Listed m a l) (hp : p ∈ placed a l) : p.2.At m p.1 := by
  induction l generalizing a with
  | nil => cases hp
  | cons e l ih =>
    rcases List.mem_cons.mp hp with rfl | hp
    · exact h.1
    · exact ih h.2 hp

lemma placedOfType_map (a : ℕ) (l : List MadtEntry) : (placedOfType id a l).map Prod.snd = ofType id l := by
  induction l generalizing a with
  | nil => rfl
  | cons e l ih =>
    rw [placedOfType, placed, ofType, List.filter_cons, List.filter_cons]
    by_cases h : e.type = id
    · simp only [h, decide_true, if_true, List.map_cons]
      exact congrArg _ (ih _)
    · simp only [h, decide_false, Bool.false_eq_true, if_false]
      exact ih _

lemma placedOfType_cons : placedOfType id a (e :: l) =
    if e.type = id then (a, e) :: placedOfType id (a + e.length) l else placedOfType id (a + e.length) l := by
  rw [placedOfType, placed, List.filter_cons]
  simp only [decide_eq_true_eq]
  rfl

lemma ofType_cons : ofType id (e :: l) = if e.type = id then e :: ofType id l else ofType id l := by
  rw [ofType, List.filter_cons]
  simp only [decide_eq_true_eq]
  rfl

/-- What is left of the table from `a` on. -/
structure Rest (t : Madt) (a : ℕ) (l : List MadtEntry) : Prop where
  listed : Listed t.mem a l
  header : 8 ≤ t.length ∧ t.header ≤ a
  stop : t.stop = a + (l.map MadtEntry.length).sum

namespace Rest

lemma head (h : Rest t a (e :: l)) : e.At t.mem a ∧ a + 1 < t.stop := by
  have hstop := h.stop
  rw [List.map_cons, List.sum_cons, MadtEntry.length] at hstop
  exact ⟨h.listed.1, by omega⟩

lemma tail (h : Rest t a (e :: l)) : Rest t (a + e.length) l := by
  refine ⟨h.listed.2, ⟨h.header.1, Nat.le_trans h.header.2 (Nat.le_add_right _ _)⟩, ?_⟩
  rw [h.stop, List.map_cons, List.sum_cons, Nat.add_assoc]

lemma counting (h : Rest t a l) (htypes : ∀ e ∈ l, e.type < 16) (hn : l.length < n) (counts : ℕ → UInt8) :
    ∃ s, loop .fuel (countBody t) n ⟨a, counts⟩ = .ok s ∧
      ∀ id : UInt8, (s.counts id.toNat).toNat = ((counts id.toNat).toNat + (ofType id l).length) % 256 := by
  induction l generalizing a n counts with
  | nil =>
    obtain ⟨n, rfl⟩ := Nat.exists_eq_succ_of_ne_zero (Nat.ne_of_gt hn)
    refine ⟨_, loop_leave (countBody_stop h.header.1 (le_of_eq h.stop)), fun id => ?_⟩
    exact (Nat.mod_eq_of_lt (UInt8.toNat_lt _)).symm
  | cons e l ih =>
    obtain ⟨n, rfl⟩ := Nat.exists_eq_succ_of_ne_zero (Nat.ne_of_gt (Nat.lt_of_le_of_lt (Nat.zero_le _) hn))
    obtain ⟨hat, hcut⟩ := h.head
    have htype : byteAt t.mem a < MADT_COUNTS := by
      rw [hat.type]
      exact UInt8.lt_iff_toNat_lt.mp (htypes e List.mem_cons_self)
    have hpass := countBody_entry (s := ⟨a, counts⟩) h.header.1 (Nat.lt_of_succ_lt hcut) h.header.2 htype hcut
    rw [hat.length, hat.type] at hpass
    obtain ⟨s, hs, hcounts⟩ := ih h.tail (fun e he => htypes e (List.mem_cons_of_mem _ he)) (Nat.lt_of_succ_lt_succ hn)
      (Function.update counts e.type.toNat (counts e.type.toNat + 1))
    refine ⟨s, (loop_pass hpass).trans hs, fun id => ?_⟩
    rw [hcounts id, ofType_cons]
    by_cases hid : e.type = id
    · subst hid
      rw [Function.update_self, if_pos rfl, List.length_cons, UInt8.toNat_add]
      simp only [UInt8.toNat_one]
      omega
    · have hne : id.toNat ≠ e.type.toNat := fun h => hid (UInt8.toNat_inj.mp h).symm
      rw [Function.update_of_ne hne, if_neg hid]

lemma lookup (h : Rest t a l) (n : ℕ) (hcount : count ≤ num) :
    getMadtEntryFrom t id num n a count = .ok ((placedOfType id a l)[num.toNat - count.toNat]?.map fun p => p.1 + 2) ∨
      getMadtEntryFrom t id num n a count = .error .fuel ∧ n ≤ l.length := by
  induction l generalizing a n count with
  | nil =>
    cases n with
    | zero => exact Or.inr ⟨rfl, le_refl 0⟩
    | succ n => exact Or.inl (getMadtEntryFrom_stop h.header.1 (le_of_eq h.stop))
  | cons e l ih =>
    cases n with
    | zero => exact Or.inr ⟨rfl, Nat.zero_le _⟩
    | succ n =>
      obtain ⟨hat, hcut⟩ := h.head
      rw [getMadtEntryFrom_entry h.header.1 h.header.2 hcut, hat.type, hat.length, placedOfType_cons]
      simp only [UInt8.toNat_inj]
      by_cases hid : e.type = id
      · rcases eq_or_ne count num with rfl | hne
        · left
          rw [if_pos ⟨hid, rfl⟩, if_pos hid, Nat.sub_self, List.getElem?_cons_zero, Option.map_some]
        · have hlt : count.toNat < num.toNat := Nat.lt_of_le_of_ne hcount fun h => hne (UInt8.toNat_inj.mp h)
          have hsucc : (count + 1).toNat = count.toNat + 1 := by
            have hnum := num.toNat_lt
            rw [UInt8.toNat_add]
            exact Nat.mod_eq_of_lt (by simp only [UInt8.toNat_one]; omega)
          rw [if_neg fun h => hne h.2, if_pos hid, if_pos hid,
            show num.toNat - count.toNat = num.toNat - (count + 1).toNat + 1 by omega, List.getElem?_cons_succ]
          exact (ih h.tail n (UInt8.le_iff_toNat_le.mpr (by omega))).imp_right fun h => ⟨h.1, Nat.succ_le_succ h.2⟩
      · rw [if_neg fun h => hid h.1, if_neg hid, if_neg hid]
        exact (ih h.tail n hcount).imp_right fun h => ⟨h.1, Nat.succ_le_succ h.2⟩

lemma placed_inside {p : ℕ × MadtEntry} (h : Rest t a l) (hp : p ∈ placed a l) : t.header ≤ p.1 ∧ p.1 + p.2.length ≤ t.stop := by
  induction l generalizing a with
  | nil => cases hp
  | cons e l ih =>
    rcases List.mem_cons.mp hp with rfl | hp
    · have hstop := h.stop
      rw [List.map_cons, List.sum_cons] at hstop
      have hend : a + e.length ≤ t.stop := by omega
      exact ⟨h.header.2, hend⟩
    · exact ih h.tail hp

end Rest

lemma Madt.Made.rest (h : t.Made l) : Rest t t.entries l where
  listed := h.listed
  header := ⟨by rw [h.length]; omega, Nat.le_add_right _ _⟩
  stop := by rw [Madt.stop, h.length, Madt.entries, Nat.add_assoc]

lemma Madt.Made.lookup (h : t.Made l) (n : ℕ) (id num : UInt8) :
    getMadtEntry n t id num = .ok ((placedOfType id t.entries l)[num.toNat]?.map fun p => p.1 + 2) ∨
      getMadtEntry n t id num = .error .fuel ∧ n ≤ l.length := by
  have hzero : 0 ≤ num := UInt8.le_iff_toNat_le.mpr (Nat.zero_le _)
  exact h.rest.lookup n hzero

lemma getMadtEntry_ok (h : t.Made l) (hn : l.length < n) (id num : UInt8) : getMadtEntry n t id num =
    .ok ((placedOfType id t.entries l)[num.toNat]?.map fun p => p.1 + 2) := by
  rcases h.lookup n id num with hok | ⟨-, hle⟩
  · exact hok
  · omega

lemma getMadtEntry_eq (h : t.Made l) {r : Option ℕ} (hr : getMadtEntry n t id num = .ok r) :
    r = (placedOfType id t.entries l)[num.toNat]?.map fun p => p.1 + 2 := by
  rcases h.lookup n id num with hok | ⟨hfuel, -⟩
  · exact Except.ok.inj (hr.symm.trans hok)
  · cases hr.symm.trans hfuel

/-- The counters and the lookups agree. -/
theorem madt_tells (h : t.Made l) (htypes : ∀ e ∈ l, e.type < 16) (hmany : ∀ id, (ofType id l).length ≤ 255)
    (hn : l.length < n) : ∃ counts, countMadtEntries n t (fun _ => 0) = .ok counts ∧
      ∀ id < 16, Tells n t l counts id := by
  obtain ⟨s, hs, hcounts⟩ := h.rest.counting htypes hn (fun _ => 0)
  refine ⟨s.counts, by rw [countMadtEntries, hs]; rfl, fun id _ => ?_⟩
  have hcount : (s.counts id.toNat).toNat = (ofType id l).length := by
    have hle := hmany id
    rw [hcounts id]
    simp only [UInt8.toNat_zero]
    omega
  refine ⟨hcount, getMadtEntry_ok h hn id, fun p hp => placed_at h.listed (List.mem_of_mem_filter hp), fun num => ?_⟩
  rw [UInt8.lt_iff_toNat_lt, hcount, ← placedOfType_map t.entries, List.length_map]
  simp only [isSome_getElem?]

section

/-! Every list of entries that the heap has room for is the list of a table. -/

def MadtEntry.bytes (e : MadtEntry) : List UInt8 := e.type :: UInt8.ofNat e.length :: e.payload

lemma MadtEntry.length_bytes : e.bytes.length = e.length := by
  simp only [bytes, List.length_cons, length]

lemma listed_of_bytes {m : Mem} (h : ∀ i (hi : i < (l.flatMap MadtEntry.bytes).length),
    byteAt m (a + i) = (l.flatMap MadtEntry.bytes)[i].toNat) : Listed m a l := by
  induction l generalizing a with
  | nil => trivial
  | cons e l ih =>
    simp only [List.flatMap_cons] at h
    have hlen := e.length_bytes
    have hfirst : ∀ i (hi : i < e.bytes.length), byteAt m (a + i) = e.bytes[i].toNat := by
      intro i hi
      rw [h i (by rw [List.length_append]; omega), List.getElem_append_left hi]
    refine ⟨⟨?_, ?_, fun i hi => ?_⟩, ih fun i hi => ?_⟩
    · exact hfirst 0 (by rw [hlen, MadtEntry.length]; omega)
    · refine (hfirst 1 (by rw [hlen, MadtEntry.length]; omega)).trans ?_
      exact Nat.mod_eq_of_lt e.short
    · rw [Nat.add_assoc, Nat.add_comm 2]
      exact hfirst (i + 2) (by rw [hlen, MadtEntry.length]; omega)
    · have hrest := h (e.bytes.length + i) (by rw [List.length_append]; omega)
      rw [← hlen, Nat.add_assoc, hrest, List.getElem_append_right (Nat.le_add_right _ _)]
      simp only [Nat.add_sub_cancel_left]

/-- The memory with such a table at `header`. -/
def tableMem (header : ℕ) (l : List MadtEntry) : Mem :=
  write32 (fun a => ((l.flatMap MadtEntry.bytes).getD (a - (header + 44)) 0).toBitVec) (header + 4) (44 + (l.map MadtEntry.length).sum)

variable {header : ℕ}

lemma sdtLength_tableMem (h : header + 44 + (l.map MadtEntry.length).sum ≤ 0xFFE00000) :
    sdtLength (tableMem header l) header = 44 + (l.map MadtEntry.length).sum := by
  rw [sdtLength, wordAt_eq (by omega), tableMem, read32_write32_self]
  exact Nat.mod_eq_of_lt (by omega)

def tableOf (header : ℕ) (l : List MadtEntry) (h : header + 44 + (l.map MadtEntry.length).sum ≤ 0xFFE00000) : Madt where
  mem := tableMem header l
  header := header
  fits := by rw [sdtLength_tableMem h, ← Nat.add_assoc]; exact h

lemma made_tableOf (h : header + 44 + (l.map MadtEntry.length).sum ≤ 0xFFE00000) : (tableOf header l h).Made l where
  listed := by
    have hlen : (l.flatMap MadtEntry.bytes).length = (l.map MadtEntry.length).sum := by
      simp only [List.length_flatMap, MadtEntry.length_bytes]
    refine listed_of_bytes fun i hi => ?_
    have haddr : u32 (header + 44 + i) = header + 44 + i := u32_eq (by omega)
    have hmem : tableMem header l (header + 44 + i) = ((l.flatMap MadtEntry.bytes).getD i 0).toBitVec := by
      rw [tableMem, write32_of_outside (by omega), Nat.add_sub_cancel_left]
    refine (congrArg _ (congrArg _ haddr)).trans ?_
    refine (congrArg _ hmem).trans ?_
    rw [List.getD_eq_getElem?_getD, List.getElem?_eq_getElem hi]
    rfl
  length := sdtLength_tableMem h

end

def lapicEntry : MadtEntry := ⟨0, [0, 0, 1, 0, 0, 0], by decide⟩

/-- An override of the ISA bus. -/
def isoEntry (irq gsi : UInt8) : MadtEntry := ⟨2, [0, irq, gsi, 0, 0, 0, 0, 0], show 8 + 2 < 256 by decide⟩

theorem madt_tells_two : ∃ counts, countMadtEntries 4 (tableOf 0xCC000000 [lapicEntry, isoEntry 0 2, lapicEntry] (by decide)) (fun _ => 0) =
    .ok counts ∧ ∀ id < 16, Tells 4 (tableOf 0xCC000000 [lapicEntry, isoEntry 0 2, lapicEntry] (by decide)) [lapicEntry, isoEntry 0 2, lapicEntry] counts id :=
  madt_tells (made_tableOf _) (by decide) (fun id => Nat.le_trans (List.length_filter_le _ _) (by decide)) (by decide)

end WordOS.Acpi
