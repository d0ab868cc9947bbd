import WordOS.Acpi.MadtEntries

/-! `ioapic_pit_irq` of `apic.c`: the global system interrupt of the timer, from the overrides of the MADT. -/

namespace WordOS.Drivers

open Machine Memory Acpi

/-- The loop of `ioapic_pit_irq`; `k` bounds the loops of `get_madt_entry`. -/
def pitCandidate (t : Madt) (k : ℕ) : (n : ℕ) → (count : UInt8) → (candidate : Option ℕ) → Exec (Option ℕ)
  | 0, _, _ => .error .fuel
  | _ + 1, _, none => .ok none
  | n + 1, count, some candidate => do
    let busSource ← loadByte t.Inside t.mem candidate
    if busSource = 0 then return some candidate
    pitCandidate t k n (count + 1) (← getMadtEntry k t 2 count)

def ioapicPitIrq (n : ℕ) (t : Madt) : Exec UInt8 := do
  let candidate ← pitCandidate t n n 0 (← getMadtEntry n t 2 0)
  match candidate with
  | none => throw .fault
  | some candidate => return UInt8.ofNat (← loadWord t.Inside t.mem (candidate + 2))

/-! Fields of `struct MADTEntryType2`. -/

def busSource (e : MadtEntry) : ℕ := (e.payload.getD 0 0).toNat

def irqSource (e : MadtEntry) : ℕ := (e.payload.getD 1 0).toNat

def gsi (e : MadtEntry) : ℕ :=
  (e.payload.getD 2 0).toNat + 2 ^ 8 * (e.payload.getD 3 0).toNat + 2 ^ 16 * (e.payload.getD 4 0).toNat +
    2 ^ 24 * (e.payload.getD 5 0).toNat

def overrides (l : List MadtEntry) : List MadtEntry := ofType 2 l

/-- The interrupt of the timer: that of the override for IRQ 0, and 0 without one. -/
def pitGsi (l : List MadtEntry) : ℕ := (((overrides l).find? fun e => irqSource e = 0).map gsi).getD 0

/-- The function ends, without a read through NULL, with the interrupt of the timer. -/
def TellsPit (t : Madt) (l : List MadtEntry) : Prop := ∃ n irq, ioapicPitIrq n t = .ok irq ∧ irq.toNat = pitGsi l

variable {t : Madt} {l : List MadtEntry} {e : MadtEntry} {c i k n p : ℕ}

def overrideAt (t : Madt) (l : List MadtEntry) (i : ℕ) : Option ℕ := (placedOfType 2 t.entries l)[i]?.map fun p => p.1 + 2

/-- The overrides have all the fields of `struct MADTEntryType2`. -/
def Whole (l : List MadtEntry) : Prop := ∀ e ∈ overrides l, 6 ≤ e.payload.length

instance (l : List MadtEntry) : Decidable (Whole l) := inferInstanceAs (Decidable (∀ e ∈ overrides l, 6 ≤ e.payload.length))

/-- The first of the overrides that `count` can number which has bus source 0. -/
structure FirstBus (l : List MadtEntry) (i : ℕ) (e : MadtEntry) : Prop where
  lt : i < 256
  get : (overrides l)[i]? = some e
  bus : busSource e = 0
  before : ∀ j < i, ∀ d, (overrides l)[j]? = some d → busSource d ≠ 0

lemma firstBus_iff : (∃ i, FirstBus l i e) ↔ ((overrides l).take 256).find? (fun e => busSource e = 0) = some e := by
  rw [List.find?_eq_some_iff_getElem]
  simp only [decide_eq_true_eq, List.length_take, List.getElem_take, Bool.not_eq_eq_eq_not, Bool.not_true, decide_eq_false_iff_not]
  constructor
  · rintro ⟨i, hlt, hget, hbus, hbefore⟩
    obtain ⟨hi, hget⟩ := List.getElem?_eq_some_iff.mp hget
    exact ⟨hbus, i, by omega, hget, fun j hj => hbefore j hj _ (List.getElem?_eq_getElem _)⟩
  · rintro ⟨hbus, i, hi, hget, hbefore⟩
    refine ⟨i, by omega, List.getElem?_eq_some_iff.mpr ⟨by omega, hget⟩, hbus, fun j hj d hd => ?_⟩
    obtain ⟨hj', rfl⟩ := List.getElem?_eq_some_iff.mp hd
    exact hbefore j hj

lemma overrideAt_some (hm : t.Made l) (hw : Whole l) (h : overrideAt t l i = some p) : ∃ e, (overrides l)[i]? = some e ∧
    loadByte t.Inside t.mem p = .ok (busSource e) ∧ loadWord t.Inside t.mem (p + 2) = .ok (gsi e) := by
  obtain ⟨⟨a, e⟩, he, rfl⟩ := Option.map_eq_some_iff.mp h
  have hget : (overrides l)[i]? = some e := by
    rw [overrides, ← placedOfType_map t.entries, List.getElem?_map, he]
    rfl
  have hmem : (a, e) ∈ placed t.entries l := List.mem_of_mem_filter (List.mem_of_getElem? he)
  have hat := placed_at hm.listed hmem
  obtain ⟨hheader, hstop⟩ : t.header ≤ a ∧ a + e.length ≤ t.stop := hm.rest.placed_inside hmem
  have hlen := hw e (List.mem_of_getElem? hget)
  have hle := Madt.stop_le (t := t)
  rw [MadtEntry.length] at hstop
  have hplace : ∀ i < e.payload.length, t.Inside (u32 (a + 2 + i)) ∧ byteAt t.mem (a + 2 + i) = (e.payload.getD i 0).toNat := by
    intro i hi
    rw [u32_eq (by omega), hat.payload i hi, List.getD_eq_getElem?_getD, List.getElem?_eq_getElem hi]
    exact ⟨⟨by omega, by omega⟩, rfl⟩
  refine ⟨e, hget, ?_, ?_⟩
  · obtain ⟨hin, hbyte⟩ := hplace 0 (by omega)
    exact (loadByte_ok hin).trans (congrArg _ hbyte)
  · have hword : wordAt t.mem (a + 2 + 2) = gsi e := by
      have h2 := (hplace 2 (by omega)).2
      have h3 := (hplace 3 (by omega)).2
      have h4 := (hplace 4 (by omega)).2
      have h5 := (hplace 5 (by omega)).2
      rw [gsi, ← h2, ← h3, ← h4, ← h5]
      rfl
    refine (loadWord_ok fun i hi => ?_).trans (congrArg _ hword)
    rw [Nat.add_assoc _ 2 i]
    exact (hplace (2 + i) (by omega)).1

lemma overrideAt_none (h : overrideAt t l i = none) : (overrides l)[i]? = none := by
  rw [overrides, ← placedOfType_map t.entries, List.getElem?_map, Option.map_eq_none_iff.mp h]
  rfl

lemma ofNat_succ (i : ℕ) : UInt8.ofNat (i + 1) = UInt8.ofNat i + 1 := UInt8.ofNat_add i 1

/-- The candidates come in their order, up to the first with bus source 0; `c` is the number of the next one. -/
lemma pitCandidate_first (hm : t.Made l) (hw : Whole l) {f : ℕ} (hf : FirstBus l f e) (hi : i ≤ f) (hc : c ≤ i + 1)
    (hn : f + 1 - c < n) (hk : l.length < k) :
    pitCandidate t k n (UInt8.ofNat c) (overrideAt t l i) = .ok (overrideAt t l f) := by
  induction n generalizing i c with
  | zero => exact absurd hn (Nat.not_lt_zero _)
  | succ n ih =>
    cases hp : overrideAt t l i with
    | none =>
      have hnone := overrideAt_none hp
      rw [List.getElem?_eq_none_iff] at hnone
      obtain ⟨hlen, -⟩ := List.getElem?_eq_some_iff.mp hf.get
      omega
    | some p =>
      obtain ⟨d, hd, hbus, -⟩ := overrideAt_some hm hw hp
      rw [pitCandidate, hbus, ok_bind]
      rcases Nat.eq_or_lt_of_le hi with rfl | hlt
      · obtain rfl := Option.some.inj (hd.symm.trans hf.get)
        rw [if_pos hf.bus, hp]
        rfl
      · have hfew := hf.lt
        have hnum : (UInt8.ofNat c).toNat = c := Nat.mod_eq_of_lt (by omega)
        rw [if_neg (hf.before i hlt d hd), getMadtEntry_ok hm hk, ok_bind, hnum, ← ofNat_succ]
        exact ih (by omega) (le_refl _) (by omega)

lemma pitCandidate_some (hm : t.Made l) (hw : Whole l) (hi : i < 256) (hc : c ≤ i + 1)
    (hbefore : ∀ j < i, ∀ d, (overrides l)[j]? = some d → busSource d ≠ 0)
    (h : pitCandidate t k n (UInt8.ofNat c) (overrideAt t l i) = .ok (some p)) :
    ∃ f e, FirstBus l f e ∧ overrideAt t l f = some p := by
  induction n generalizing i c with
  | zero => cases h
  | succ n ih =>
    cases hq : overrideAt t l i with
    | none =>
      rw [hq] at h
      cases h
    | some q =>
      obtain ⟨d, hd, hbus, -⟩ := overrideAt_some hm hw hq
      rw [hq, pitCandidate, hbus, ok_bind] at h
      by_cases hzero : busSource d = 0
      · rw [if_pos hzero] at h
        exact ⟨i, d, ⟨hi, hd, hzero, hbefore⟩, hq.trans (Except.ok.inj h)⟩
      · rw [if_neg hzero] at h
        obtain ⟨r, hr, hrest⟩ := bind_eq_ok.mp h
        rw [getMadtEntry_eq hm hr, ← ofNat_succ] at hrest
        have hnum : (UInt8.ofNat c).toNat = c % 256 := rfl
        have hcount : UInt8.ofNat (c + 1) = UInt8.ofNat (c % 256 + 1) := by
          apply UInt8.toNat_inj.mp
          simp only [UInt8.toNat_ofNat']
          omega
        rw [hnum, hcount] at hrest
        refine ih (Nat.mod_lt _ (by decide)) (le_refl _) (fun j hj e he => ?_) hrest
        rcases Nat.lt_or_ge j i with hlt | hge
        · exact hbefore j hlt e he
        · have hji : j = i := by omega
          subst hji
          exact (Option.some.inj (hd.symm.trans he)) ▸ hzero

/-- The answer is the low byte of the interrupt of the first override with bus source 0, whatever IRQ it is for. -/
lemma ioapicPitIrq_iff (hm : t.Made l) (hw : Whole l) (irq : UInt8) :
    (∃ n, ioapicPitIrq n t = .ok irq) ↔ ∃ f e, FirstBus l f e ∧ irq.toNat = gsi e % 256 := by
  constructor
  · rintro ⟨n, hok⟩
    obtain ⟨first, hfirst, hok⟩ := bind_eq_ok.mp hok
    obtain ⟨candidate, hcand, hok⟩ := bind_eq_ok.mp hok
    rw [getMadtEntry_eq hm hfirst] at hcand
    cases candidate with
    | none => cases hok
    | some p =>
      obtain ⟨f, e, hf, hp⟩ := pitCandidate_some hm hw (i := 0) (c := 0) (by decide) (Nat.zero_le _)
        (fun j hj => absurd hj (Nat.not_lt_zero j)) hcand
      obtain ⟨d, hd, -, hgsi⟩ := overrideAt_some hm hw hp
      obtain rfl := Option.some.inj (hf.get.symm.trans hd)
      simp only [hgsi, ok_bind] at hok
      exact ⟨f, e, hf, (congrArg UInt8.toNat (Except.ok.inj hok)).symm⟩
  · rintro ⟨f, e, hf, hirq⟩
    have hn : l.length < l.length + f + 2 := by omega
    obtain ⟨p, hp⟩ : ∃ p, overrideAt t l f = some p := by
      cases hp : overrideAt t l f with
      | none =>
        have hnone := overrideAt_none hp
        rw [hf.get] at hnone
        cases hnone
      | some p => exact ⟨p, rfl⟩
    obtain ⟨d, hd, -, hgsi⟩ := overrideAt_some hm hw hp
    obtain rfl := Option.some.inj (hf.get.symm.trans hd)
    have hcand := pitCandidate_first hm hw hf (i := 0) (c := 0) (Nat.zero_le f) (Nat.zero_le _)
      (show f + 1 - 0 < l.length + f + 2 by omega) hn
    refine ⟨l.length + f + 2, ?_⟩
    rw [ioapicPitIrq, getMadtEntry_ok hm hn, ok_bind]
    refine (congrArg (· >>= _) (hcand.trans (congrArg _ hp))).trans ?_
    simp only [ok_bind, hgsi]
    exact congrArg _ (UInt8.toNat_inj.mp hirq.symm)

lemma TellsPit.first (h : TellsPit t l) (hm : t.Made l) (hw : Whole l) :
    ∃ e, ((overrides l).take 256).find? (fun e => busSource e = 0) = some e ∧ gsi e % 256 = pitGsi l := by
  obtain ⟨n, irq, hok, hirq⟩ := h
  obtain ⟨f, e, hf, hgsi⟩ := (ioapicPitIrq_iff hm hw irq).mp ⟨n, hok⟩
  exact ⟨e, firstBus_iff.mp ⟨f, hf⟩, hgsi.symm.trans hirq⟩

/-- The loop asks for bus source 0 and not for IRQ 0, and the answer has eight bits. -/
theorem tellsPit_iff (hm : t.Made l) (hw : Whole l) : TellsPit t l ↔
    ∃ e, ((overrides l).take 256).find? (fun e => busSource e = 0) = some e ∧ gsi e % 256 = pitGsi l := by
  constructor
  · intro h
    exact h.first hm hw
  · rintro ⟨e, hfind, hgsi⟩
    obtain ⟨f, hf⟩ := firstBus_iff.mpr hfind
    have hirq : (UInt8.ofNat (gsi e)).toNat = gsi e % 256 := rfl
    obtain ⟨n, hok⟩ := (ioapicPitIrq_iff hm hw _).mpr ⟨f, e, hf, hirq⟩
    exact ⟨n, _, hok, hirq.trans hgsi⟩

theorem tellsPit_first : TellsPit (tableOf 0xCC000000 [isoEntry 0 2, isoEntry 9 9] (by decide)) [isoEntry 0 2, isoEntry 9 9] :=
  (tellsPit_iff (made_tableOf _) (by decide)).mpr ⟨isoEntry 0 2, rfl, by decide⟩

/-- The override of IRQ 9 comes before that of the timer. -/
theorem not_tellsPit : ¬ TellsPit (tableOf 0xCC000000 [isoEntry 9 9, isoEntry 0 2] (by decide)) [isoEntry 9 9, isoEntry 0 2] := by
  intro h
  obtain ⟨e, he, hgsi⟩ := h.first (made_tableOf _) (by decide)
  obtain rfl : isoEntry 9 9 = e := Option.some.inj he
  exact absurd hgsi (by decide)

end WordOS.Drivers
