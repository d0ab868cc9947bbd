import WordOS.Acpi.Tables
import WordOS.Lib.Chains

/-! The entries of the MADT: `count_madt_entries` and `get_madt_entry`. -/

namespace WordOS.Acpi

open Machine Memory Lib.Bytes Lib.Loops Lib.Chains

/-- A table in the heap, which ends where the dynamic range does. -/
structure Madt where
  mem : Mem
  header : ℕ
  fits : header + sdtLength mem header ≤ 0xFFE00000

namespace Madt

variable (t : Madt)

def length : ℕ := sdtLength t.mem t.header

/-- `&(madt_header->entries)` -/
def entries : ℕ := t.header + 44

/-- The address behind the table. -/
def stop : ℕ := t.header + t.length

def Inside (x : ℕ) : Prop := t.header ≤ x ∧ x < t.stop

instance : DecidablePred t.Inside := fun x => inferInstanceAs (Decidable (t.header ≤ x ∧ x < t.stop))

end Madt

/-- `sizeof(struct MADTEntryCount)` -/
def MADT_COUNTS : ℕ := 16

/-- `entry`, and the bytes of `madt_counts` -/
structure Count where
  entry : ℕ
  counts : ℕ → UInt8

def countBody (t : Madt) (s : Count) : Exec (Option Count) := do
  let length ← loadWord t.Inside t.mem (t.header + 4)
  if ¬ s.entry < u32 (t.header + length) then return none
  let type ← loadByte t.Inside t.mem s.entry
  -- an increment behind `madt_counts`
  if ¬ type < MADT_COUNTS then throw .fault
  let len ← loadByte t.Inside t.mem (s.entry + 1)
  return some ⟨u32 (s.entry + len), Function.update s.counts type (s.counts type + 1)⟩

/-- `n` bounds the tests of the loop, here and in `getMadtEntry`. -/
def countMadtEntries (n : ℕ) (t : Madt) (counts : ℕ → UInt8) : Exec (ℕ → UInt8) := do
  let s ← loop .fuel (countBody t) n ⟨t.entries, counts⟩
  return s.counts

def getMadtEntryFrom (t : Madt) (id num : UInt8) : (n : ℕ) → (entry : ℕ) → (count : UInt8) → Exec (Option ℕ)
  | 0, _, _ => .error .fuel
  | n + 1, entry, count => do
    let length ← loadWord t.Inside t.mem (t.header + 4)
    if ¬ entry < u32 (t.header + length) then return none
    let type ← loadByte t.Inside t.mem entry
    if type = id.toNat ∧ count = num then return some (entry + 2)
    let len ← loadByte t.Inside t.mem (entry + 1)
    getMadtEntryFrom t id num n (u32 (entry + len)) (if type = id.toNat then count + 1 else count)

/-- The address of the payload; `none` is NULL. -/
def getMadtEntry (n : ℕ) (t : Madt) (id num : UInt8) : Exec (Option ℕ) := getMadtEntryFrom t id num n t.entries 0

/-- Both functions end, read the table alone, and increment only the sixteen counters. -/
structure Confined (t : Madt) : Prop where
  counts : ∀ counts, ∃ n counts', countMadtEntries n t counts = .ok counts'
  entry : ∀ id num, ∃ n r, getMadtEntry n t id num = .ok r

namespace Madt

variable (t : Madt)

def nextEntry (entry : ℕ) : Option ℕ := if entry < t.stop then some (entry + byteAt t.mem (entry + 1)) else none

/-- The table has room for its length, and each entry that one comes to has a type below sixteen and a length that is
not 0 and is not cut off by the end. -/
structure Sound : Prop where
  length : 8 ≤ t.length
  entries : ∀ k entry, follow t.nextEntry k t.entries = some entry → entry < t.stop →
    byteAt t.mem entry < MADT_COUNTS ∧ entry + 1 < t.stop ∧ byteAt t.mem (entry + 1) ≠ 0

/-- What a pass needs. -/
def Good (entry : ℕ) : Prop :=
  8 ≤ t.length ∧ (entry < t.stop → t.header ≤ entry ∧ byteAt t.mem entry < MADT_COUNTS ∧ entry + 1 < t.stop)

variable {t} {entry e k : ℕ} {s : Count}

lemma stop_le : t.stop ≤ 0xFFE00000 := t.fits

lemma inside_iff {x : ℕ} (hx : x < t.stop) : t.Inside (u32 x) ↔ t.header ≤ x := by
  have hle := stop_le (t := t)
  rw [u32_eq (by omega)]
  exact ⟨fun h => h.1, fun h => ⟨h, hx⟩⟩

lemma within_length : Within t.Inside (t.header + 4) 4 ↔ 8 ≤ t.length := by
  have hle := stop_le (t := t)
  have hstop : t.stop = t.header + t.length := rfl
  constructor
  · intro h
    have hlast := (h 3 (by decide)).2
    have hfirst := (h 0 (by decide)).2
    simp only [u32] at hlast hfirst
    omega
  · intro h i hi
    exact (inside_iff (by omega)).mpr (by omega)

lemma loadLength (h : 8 ≤ t.length) : loadWord t.Inside t.mem (t.header + 4) = .ok t.length := loadWord_ok (within_length.mpr h)

lemma u32_stop : u32 (t.header + t.length) = t.stop := u32_eq (by have hle := stop_le (t := t); rw [stop] at hle; omega)

lemma nextEntry_of_lt (h : entry < t.stop) : t.nextEntry entry = some (entry + byteAt t.mem (entry + 1)) := if_pos h

lemma nextEntry_of_ge (h : t.stop ≤ entry) : t.nextEntry entry = none := if_neg (Nat.not_lt.mpr h)

lemma u32_next (h : entry < t.stop) : u32 (entry + byteAt t.mem (entry + 1)) = entry + byteAt t.mem (entry + 1) := by
  have hle := stop_le (t := t)
  have hbyte := byteAt_lt (m := t.mem) (a := entry + 1)
  exact u32_eq (by omega)

end Madt

open Madt

variable {t : Madt} {s : Count} {id num count : UInt8} {e k n : ℕ}

lemma countBody_stop (hlen : 8 ≤ t.length) (h : t.stop ≤ s.entry) : countBody t s = .ok none := by
  rw [countBody, loadLength hlen, ok_bind, u32_stop, if_pos (Nat.not_lt.mpr h)]
  rfl

lemma countBody_entry (hlen : 8 ≤ t.length) (h : s.entry < t.stop) (hin : t.header ≤ s.entry)
    (htype : byteAt t.mem s.entry < MADT_COUNTS) (hcut : s.entry + 1 < t.stop) : countBody t s =
    .ok (some ⟨s.entry + byteAt t.mem (s.entry + 1),
      Function.update s.counts (byteAt t.mem s.entry) (s.counts (byteAt t.mem s.entry) + 1)⟩) := by
  rw [countBody, loadLength hlen, ok_bind, u32_stop, if_neg (not_not.mpr h), loadByte_ok ((inside_iff h).mpr hin), ok_bind,
    if_neg (not_not.mpr htype), loadByte_ok ((inside_iff hcut).mpr (by omega)), ok_bind, u32_next h]
  rfl

lemma countBody_good {r : Option Count} (hr : countBody t s = .ok r) : t.Good s.entry := by
  obtain ⟨length, hlength, hr⟩ := bind_eq_ok.mp hr
  obtain ⟨hlen, rfl⟩ := loadWord_eq_ok.mp hlength
  refine ⟨within_length.mp hlen, fun hlt => ?_⟩
  rw [← sdtLength, ← Madt.length, u32_stop, if_neg (not_not.mpr hlt)] at hr
  obtain ⟨type, htype, hr⟩ := bind_eq_ok.mp hr
  obtain ⟨hin, rfl⟩ := loadByte_eq_ok.mp htype
  by_cases hknown : byteAt t.mem s.entry < MADT_COUNTS
  · rw [if_neg (not_not.mpr hknown)] at hr
    obtain ⟨len, hcut, -⟩ := bind_eq_ok.mp hr
    obtain ⟨hcut, -⟩ := loadByte_eq_ok.mp hcut
    have hle := stop_le (t := t)
    have hlast := hcut.2
    rw [u32_eq (by omega)] at hlast
    exact ⟨(inside_iff hlt).mp hin, hknown, hlast⟩
  · rw [if_pos hknown] at hr
    cases hr

lemma countBody_walks : Walks (countBody t) Count.entry t.nextEntry t.Good where
  good_iff s := by
    constructor
    · rintro ⟨hlen, hgood⟩
      rcases Nat.lt_or_ge s.entry t.stop with hlt | hge
      · obtain ⟨hin, htype, hcut⟩ := hgood hlt
        exact ⟨_, countBody_entry hlen hlt hin htype hcut⟩
      · exact ⟨_, countBody_stop hlen hge⟩
    · rintro ⟨r, hr⟩
      exact countBody_good hr
  moves {s r} hr := by
    obtain ⟨hlen, hgood⟩ := countBody_good hr
    rcases Nat.lt_or_ge s.entry t.stop with hlt | hge
    · obtain ⟨hin, htype, hcut⟩ := hgood hlt
      rw [countBody_entry hlen hlt hin htype hcut] at hr
      rw [nextEntry_of_lt hlt, ← Except.ok.inj hr, Option.map_some]
    · rw [countBody_stop hlen hge] at hr
      rw [nextEntry_of_ge hge, ← Except.ok.inj hr, Option.map_none]

namespace Madt

lemma header_le (h : follow t.nextEntry k t.entries = some e) : t.header ≤ e := by
  refine follow_invariant (I := fun e => t.header ≤ e) ?_ h (Nat.le_add_right _ _)
  intro a b ha hb
  rcases Nat.lt_or_ge a t.stop with hlt | hge
  · rw [nextEntry_of_lt hlt] at hb
    exact Nat.le_trans ha (Option.some.inj hb ▸ Nat.le_add_right _ _)
  · rw [nextEntry_of_ge hge] at hb
    cases hb

lemma Sound.good (h : t.Sound) (he : follow t.nextEntry k t.entries = some e) : t.Good e := by
  refine ⟨h.length, fun hlt => ?_⟩
  obtain ⟨htype, hcut, -⟩ := h.entries k e he hlt
  exact ⟨header_le he, htype, hcut⟩

lemma Sound.next_lt {d : ℕ} (h : t.Sound) (he : follow t.nextEntry k t.entries = some e) (hd : t.nextEntry e = some d) :
    e < t.stop ∧ e < d := by
  rcases Nat.lt_or_ge e t.stop with hlt | hge
  · obtain ⟨-, -, hlen⟩ := h.entries k e he hlt
    rw [nextEntry_of_lt hlt] at hd
    have hd := Option.some.inj hd
    omega
  · rw [nextEntry_of_ge hge] at hd
    cases hd

lemma Sound.ends (h : t.Sound) : ∃ k b, EndsAt t.nextEntry k t.entries b := by
  apply exists_endsAt (v := fun e => t.stop - e)
  intro j c d hc hd
  obtain ⟨hlt, hcd⟩ := h.next_lt hc hd
  omega

/-- The table is confined by what a pass needs, and a chain with an end has no entry of length 0. -/
lemma sound_iff : t.Sound ↔ ∃ k b, EndsAt t.nextEntry k t.entries b ∧ ∀ j ≤ k, ∀ e, follow t.nextEntry j t.entries = some e → t.Good e := by
  constructor
  · intro h
    obtain ⟨k, b, hend⟩ := h.ends
    exact ⟨k, b, hend, fun j _ e he => h.good he⟩
  · rintro ⟨k, b, hend, hall⟩
    refine ⟨(hall 0 (Nat.zero_le k) _ rfl).1, fun j e he hlt => ?_⟩
    have hjk : j ≤ k := by
      by_contra hgt
      rw [hend.not_follow (Nat.lt_of_not_le hgt)] at he
      cases he
    obtain ⟨-, htype, hcut⟩ := (hall j hjk e he).2 hlt
    refine ⟨htype, hcut, fun hzero => ?_⟩
    have hagain : follow t.nextEntry (j + 1) t.entries = some e := by
      rw [follow_succ', he, Option.bind_some, nextEntry_of_lt hlt, hzero, Nat.add_zero]
    have hsame := hend.inj he hagain
    omega

end Madt

lemma countMadtEntries_iff (counts : ℕ → UInt8) : (∃ n counts', countMadtEntries n t counts = .ok counts') ↔ t.Sound := by
  have hloop : (∃ n counts', countMadtEntries n t counts = .ok counts') ↔
      ∃ n s, loop .fuel (countBody t) n ⟨t.entries, counts⟩ = .ok s := by
    constructor
    · rintro ⟨n, counts', h⟩
      obtain ⟨s, hs, -⟩ := bind_eq_ok.mp h
      exact ⟨n, s, hs⟩
    · rintro ⟨n, s, hs⟩
      exact ⟨n, s.counts, by rw [countMadtEntries, hs]; rfl⟩
  rw [hloop, countBody_walks.returns_iff, sound_iff]

lemma getMadtEntryFrom_stop (hlen : 8 ≤ t.length) (h : t.stop ≤ e) : getMadtEntryFrom t id num (n + 1) e count = .ok none := by
  rw [getMadtEntryFrom, loadLength hlen, ok_bind, u32_stop, if_pos (Nat.not_lt.mpr h)]
  rfl

lemma getMadtEntryFrom_entry (hlen : 8 ≤ t.length) (hin : t.header ≤ e) (hcut : e + 1 < t.stop) :
    getMadtEntryFrom t id num (n + 1) e count =
      if byteAt t.mem e = id.toNat ∧ count = num then .ok (some (e + 2))
      else getMadtEntryFrom t id num n (e + byteAt t.mem (e + 1)) (if byteAt t.mem e = id.toNat then count + 1 else count) := by
  have hlt : e < t.stop := by omega
  rw [getMadtEntryFrom, loadLength hlen, ok_bind, u32_stop, if_neg (not_not.mpr hlt), loadByte_ok ((inside_iff hlt).mpr hin),
    ok_bind, loadByte_ok ((inside_iff hcut).mpr (by omega)), ok_bind, u32_next hlt]
  rfl

lemma getMadtEntryFrom_returns (h : t.Sound) (id num : UInt8) (he : follow t.nextEntry k t.entries = some e) (count : UInt8) :
    ∃ n r, getMadtEntryFrom t id num n e count = .ok r := by
  induction hv : t.stop - e using Nat.strong_induction_on generalizing k e count with
  | _ v ih =>
    rcases Nat.lt_or_ge e t.stop with hlt | hge
    · obtain ⟨-, hcut, hlen⟩ := h.entries k e he hlt
      have hnext : follow t.nextEntry (k + 1) t.entries = some (e + byteAt t.mem (e + 1)) := by
        rw [follow_succ', he, Option.bind_some, nextEntry_of_lt hlt]
      have hdown : t.stop - (e + byteAt t.mem (e + 1)) < v := by omega
      obtain ⟨n, r, hr⟩ := ih _ hdown hnext (if byteAt t.mem e = id.toNat then count + 1 else count) rfl
      by_cases hfound : byteAt t.mem e = id.toNat ∧ count = num
      · refine ⟨n + 1, some (e + 2), ?_⟩
        rw [getMadtEntryFrom_entry h.length (header_le he) hcut, if_pos hfound]
      · refine ⟨n + 1, r, ?_⟩
        rw [getMadtEntryFrom_entry h.length (header_le he) hcut, if_neg hfound]
        exact hr
    · exact ⟨1, none, getMadtEntryFrom_stop h.length hge⟩

/-- The functions are confined on the tables whose entries lead to the end of the table. -/
theorem confined_iff (t : Madt) : Confined t ↔ t.Sound := by
  constructor
  · intro h
    exact (countMadtEntries_iff fun _ => 0).mp (h.counts _)
  · intro h
    exact ⟨fun counts => (countMadtEntries_iff counts).mpr h, fun id num => getMadtEntryFrom_returns h id num (follow_zero) 0⟩

/-- A table with one entry whose length is 0. -/
def stuckMadt : Madt where
  mem a := if a = 0xCC000004 then 46 else 0
  header := 0xCC000000
  fits := by decide

theorem not_confined : ¬ Confined stuckMadt := by
  intro h
  obtain ⟨-, -, hlen⟩ := ((countMadtEntries_iff fun _ => 0).mp (h.counts _)).entries 0 _ rfl (by decide)
  exact hlen (by decide)

end WordOS.Acpi
