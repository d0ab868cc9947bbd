import WordOS.Memory.PaeTranslation
import WordOS.Memory.PdTables

/-! The frames from which page tables are made, and what a page that is mapped leaves of the other pages. -/

namespace WordOS.Memory

open Machine Lib

/-- A frame that `alloc_phys_page` does not give away is free, so a call that returns has found one below it. -/
def Pmm.Headroom (s : Pmm) : Prop := ∃ g, 0xF00 < g ∧ g < 0xfff00 ∧ s.bit g = false ∧ 4 * (g / 32) + 4 ≤ s.numFrames

/-- The free frames of the bitmap hold no table. -/
structure Spare (unused : ℕ → Prop) (pmm : Pmm) : Prop where
  headroom : pmm.Headroom
  unused : ∀ f ≤ 0xF00, pmm.bit f = false → unused (256 + f)

lemma allocPhysPage_low {pmm pmm' : Pmm} {p : ℕ} (h : pmm.Headroom) (ha : allocPhysPage pmm = .ok (p, pmm')) :
    ∃ f ≤ 0xF00, pmm.Lowest f ∧ p = 4096 * (256 + f) ∧ pmm.Writes f true pmm' ∧ pmm'.Headroom := by
  obtain ⟨g, hg, hg', hb, hn⟩ := h
  obtain ⟨l, hl, hlow⟩ := Pmm.exists_lowest hb
  rcases allocPhysPage_ok ha with ⟨hnone, -⟩ | ⟨f, hf, hfn, rfl, hle, hw⟩
  · rw [getFirstFrame_lowest hlow (by omega) (by omega)] at hnone
    cases hnone
  · obtain rfl := hf.unique hlow
    rw [frameToPhysical_eq (by omega)] at hle ⊢
    have hne : g ≠ f := by omega
    refine ⟨f, by omega, hf, by omega, hw, g, hg, hg', ?_, hw.numFrames ▸ hn⟩
    rw [hw.bit, if_neg hne, hb]

namespace Paging

variable {s t u : Paging} {pmm : Pmm} {virt phys flags v w x y e f d i j k n i' j' k' : ℕ}

lemma store64_phys (h : s.store64 v x = .ok t) : t = { s with phys := t.phys } := by
  rw [store64] at h
  cases hw : s.walk64 v with
  | none =>
    rw [hw] at h
    cases h
  | some f =>
    rw [hw] at h
    obtain rfl := Except.ok.inj h
    rfl

lemma table_window (hs : s.Recursive) : s.table i j = (s.entryAt i 511 j).map frameOf := by
  cases hd : s.directory i with
  | none =>
    rw [table, PageTables.table, hd, entryAt, PageTables.entry, PageTables.table, hd]
    rfl
  | some d =>
    rw [table, PageTables.table_of_dir hd, entryAt_of_table (hs.table_self hd), target]
    split_ifs <;> rfl

/-- What `pae_mmap` needs to find the page tables. -/
structure PaeReady (s : Paging) : Prop where
  recursive : s.Recursive
  bits : s.maxBitExtension ≤ 52
  spare : Spare s.Unused s.pmm

/-- A frame that is taken, for something else than a table. -/
structure Parked (s : Paging) (f : ℕ) : Prop where
  unused : s.Unused f
  taken : ∃ g, f = 256 + g ∧ s.pmm.bit g = true

lemma unused_of_tables (hp : t.pdpt = s.pdpt) (ht : ∀ i j, t.table i j = s.table i j ∨ t.table i j = some y) (hf : f ≠ y)
    (hu : s.Unused f) : t.Unused f := by
  have hd : ∀ i, t.directory i = s.directory i := fun i => by rw [directory, directory, hp]
  refine ⟨fun i => hd i ▸ hu.not_dir i, fun i j he => ?_⟩
  rcases ht i j with h | h
  · exact hu.not_table i j (h.symm.trans he)
  · exact hf (Option.some.inj (he.symm.trans h))

lemma Maps.table (h : Maps s virt e t) (hs : s.Recursive) (ht : s.table (pdpteOf virt) (pdIndexOf virt) = some f)
    (hj : pdIndexOf virt ≠ 511) (i j : ℕ) : t.table i j = s.table i j := by
  rw [table_window h.recursive, table_window hs]
  refine congrArg _ (h.others i 511 j (fun _ hj' => absurd hj'.symm hj) fun hnone => ?_)
  exact absurd (ht.symm.trans hnone) (by simp)

lemma store_entry_ready (h : s.PaeReady) (hj : pdIndexOf virt ≠ 511) (ht : s.table (pdpteOf virt) (pdIndexOf virt) = some f)
    (hx : x < 2 ^ 64) (hm : (do
      let s ← s.store64 (ptWindow (pdpteOf virt) (pdIndexOf virt) + 8 * ptIndexOf virt) 0
      s.store64 (ptWindow (pdpteOf virt) (pdIndexOf virt) + 8 * ptIndexOf virt) x) = .ok t) :
    t.PaeReady ∧ Maps s virt x t ∧ t.pmm = s.pmm ∧ ∀ g k, g ≠ f → t.entries64 g k = s.entries64 g k := by
  obtain ⟨u, hu, hmaps⟩ := store_entry h.recursive hj ht hx
  obtain rfl := Except.ok.inj (hm.symm.trans hu)
  obtain ⟨s₁, h₁, h₂⟩ := bind_eq_ok.mp hm
  have e₂ := store64_phys h₂
  rw [store64_phys h₁] at e₂
  have htab : ∀ i j, t.table i j = s.table i j ∨ t.table i j = some f := fun i j => .inl (hmaps.table h.recursive ht hj i j)
  have hpmm : t.pmm = s.pmm := by rw [e₂]
  have hbits : t.maxBitExtension = s.maxBitExtension := by rw [e₂]
  refine ⟨⟨hmaps.recursive, hbits ▸ h.bits, hpmm ▸ h.spare.headroom, fun g hg hb => ?_⟩, hmaps, hpmm, fun g k hg => ?_⟩
  · rw [hpmm] at hb
    have hu := h.spare.unused g hg hb
    exact unused_of_tables hmaps.pdpt htab (by rintro rfl; exact hu.not_table _ _ ht) hu
  · obtain ⟨hs₁, ht₁, -⟩ := setEntry_ok h.recursive hj ht (ptIndexOf virt) 0
    rw [store64_window h.recursive ht (ptIndexOf_lt virt)] at h₁
    obtain rfl := Except.ok.inj h₁
    rw [store64_window hs₁ ((ht₁ ..).trans ht) (ptIndexOf_lt virt)] at h₂
    obtain rfl := Except.ok.inj h₂
    exact (entries64_setEntry fun hf => absurd hf hg).trans (entries64_setEntry fun hf => absurd hf hg)

lemma createNewPaePt_ready (h : s.PaeReady) (hd : s.directory i = some d) (hj : j < 511) (hnone : s.table i j = none)
    (hc : createNewPaePt s i j (recursiveAddrOf i) = .ok t) :
    t.PaeReady ∧ t.pdpt = s.pdpt ∧ t.pmm.numFrames = s.pmm.numFrames ∧
      (∃ f, t.table i j = some (256 + f) ∧ s.pmm.Lowest f ∧ s.pmm.Writes f true t.pmm ∧
        ∀ g k, g ≠ 256 + f → g ≠ d → t.entries64 g k = s.entries64 g k) ∧
      ∀ i' j' k', (i' = i → j' = 511 → k' ≠ j) → t.entryAt i' j' k' = s.entryAt i' j' k' := by
  have halloc : ∃ p pmm, allocPhysPage s.pmm = .ok (p, pmm) := by
    have hp : Present (s.pdpt i) := by
      obtain ⟨-, -, -, -, hp, -⟩ := exists_directory (h.recursive.table_self hd)
      exact hp
    rw [createNewPaePt, if_neg (not_not_intro hp)] at hc
    obtain ⟨⟨p, pmm⟩, ha, -⟩ := bind_eq_ok.mp hc
    exact ⟨p, pmm, ha⟩
  obtain ⟨p, pmm, ha⟩ := halloc
  obtain ⟨f, hf, hl, rfl, hw, hroom⟩ := allocPhysPage_low h.spare.headroom ha
  have hu := h.spare.unused f hf hl.1
  obtain ⟨m, hm, hs', ht', ho, hframes⟩ := createNewPaePt_ok h.recursive hd hj hnone ha hu (by omega)
  obtain rfl := Except.ok.inj (hm.symm.trans hc)
  have htab : ∀ i' j', ({ s with pmm := pmm, phys := m } : Paging).table i' j' = s.table i' j' ∨
      ({ s with pmm := pmm, phys := m } : Paging).table i' j' = some (256 + f) := by
    intro i' j'
    by_cases hij : i' = i ∧ j' = j
    · obtain ⟨rfl, rfl⟩ := hij
      exact .inr ht'
    · have hwin := ho i' 511 j' fun hi _ hj => hij ⟨hi, hj⟩
      rw [table_window h.recursive, ← hwin]
      exact .inl (table_window hs')
  refine ⟨⟨hs', h.bits, hroom, fun g hg hgb => ?_⟩, rfl, hw.numFrames, ⟨f, ht', hl, hw, hframes⟩, ho⟩
  rw [show ({ s with pmm := pmm, phys := m } : Paging).pmm = pmm from rfl, hw.bit] at hgb
  split_ifs at hgb with hgf
  refine unused_of_tables ?_ htab (by omega) (h.spare.unused g hg hgb)
  rfl

lemma present_of_load64 (hi : i < 4) (hj : j < 512) (h : s.load64 (pdWindow i + 8 * j) = .ok x) : Present (s.pdpt i) := by
  rw [pdWindow_eq hi, ptWindow_eq hi (by norm_num)] at h
  have htop : (2 ^ 30 * i + 2 ^ 21 * 511 + 2 ^ 12 * 511 + 8 * j) / 2 ^ 30 = i := by omega
  by_contra hp
  rw [load64, walk64] at h
  simp only [htop, if_neg hp] at h
  cases h

/-- The bitmap after `pae_mmap`: a frame is taken for the table if it was missing. -/
structure TableTaken (s : Paging) (virt : ℕ) (pmm : Pmm) : Prop where
  present : s.table (pdpteOf virt) (pdIndexOf virt) ≠ none → pmm = s.pmm
  missing : s.table (pdpteOf virt) (pdIndexOf virt) = none → ∃ f, s.pmm.Lowest f ∧ s.pmm.Writes f true pmm

lemma PaeReady.paeMmap (h : s.PaeReady) (hj : pdIndexOf virt ≠ 511) (hflags : flags < 4096)
    (hm : paeMmap s phys virt flags = .ok t) :
    t.PaeReady ∧ Maps s virt (phys ||| flags) t ∧ phys < 2 ^ 52 ∧ TableTaken s virt t.pmm ∧
      (∀ i j f, t.table i j = some f → s.table i j = some f ∨ ∃ g, f = 256 + g ∧ s.pmm.bit g = false) ∧
      ∀ f, s.Parked f → t.Parked f ∧ ∀ k, t.entries64 f k = s.entries64 f k := by
  rw [Memory.paeMmap] at hm
  dsimp only at hm
  by_cases hbits : phys / 2 ^ s.maxBitExtension ≠ 0
  · rw [if_pos hbits] at hm
    cases hm
  by_cases halign : phys % 2 ^ 10 ≠ 0
  · rw [if_neg hbits, if_pos halign] at hm
    cases hm
  rw [if_neg hbits, if_neg halign] at hm
  have hphys : phys < 2 ^ 52 := by
    have hpow : 2 ^ s.maxBitExtension ≤ 2 ^ 52 := Nat.pow_le_pow_right (by norm_num) h.bits
    exact ((Nat.div_eq_zero_iff_lt (by positivity)).mp (not_not.mp hbits)).trans_le hpow
  have hx : phys ||| flags < 2 ^ 64 := Nat.or_lt_two_pow (hphys.trans (by norm_num)) (hflags.trans (by norm_num))
  have hi := pdpteOf_lt virt
  have hlt := pdIndexOf_lt virt
  obtain ⟨e, hl, hm⟩ := bind_eq_ok.mp hm
  have hp := present_of_load64 hi hlt hl
  have hd := directory_of_present hi hp
  obtain ⟨e', hl', he⟩ := load64_pdWindow h.recursive hd hlt
  obtain rfl := Except.ok.inj (hl.symm.trans hl')
  by_cases hpe : Present e
  · rw [target_of_present hpe] at he
    rw [if_pos hpe, ok_bind] at hm
    obtain ⟨hr, hmaps, hpmm, hframes⟩ := store_entry_ready h hj he hx hm
    have htaken : TableTaken s virt t.pmm := ⟨fun _ => hpmm, fun hnone => absurd (he.symm.trans hnone) (by simp)⟩
    refine ⟨hr, hmaps, hphys, htaken, fun i j f hf => .inl ((hmaps.table h.recursive he hj i j).symm.trans hf), fun g hg => ?_⟩
    obtain ⟨hu, ht⟩ := hg
    have hne : g ≠ frameOf e := fun h => hu.not_table _ _ (h ▸ he)
    have htab : ∀ i j, t.table i j = s.table i j ∨ t.table i j = some (frameOf e) := fun i j =>
      .inl (hmaps.table h.recursive he hj i j)
    exact ⟨⟨unused_of_tables hmaps.pdpt htab hne hu, hpmm ▸ ht⟩, fun k => hframes g k hne⟩
  · rw [target_of_not_present hpe] at he
    rw [if_neg hpe] at hm
    obtain ⟨s₁, hc, hm⟩ := bind_eq_ok.mp hm
    obtain ⟨h₁, hpdpt, hn, ⟨f, hf, hl, hw, hframes⟩, ho⟩ := createNewPaePt_ready h hd (by omega) he hc
    obtain ⟨hr, hmaps, hpmm, hframes'⟩ := store_entry_ready h₁ hj hf hx hm
    have htab : ∀ i j, t.table i j = s.table i j ∨ t.table i j = some (256 + f) := by
      intro i j
      rw [hmaps.table h₁.recursive hf hj]
      by_cases hij : i = pdpteOf virt ∧ j = pdIndexOf virt
      · obtain ⟨rfl, rfl⟩ := hij
        exact .inr hf
      · have hwin := ho i 511 j fun hi _ hj => hij ⟨hi, hj⟩
        rw [table_window h₁.recursive, hwin, ← table_window h.recursive]
        exact .inl rfl
    refine ⟨hr, ⟨hmaps.recursive, hmaps.pdpt.trans hpdpt, hmaps.numFrames.trans hn, hmaps.exists_table, fun i j k hne h' => ?_⟩,
      hphys, ⟨fun hsome => absurd he hsome, fun _ => ⟨f, hl, hpmm ▸ hw⟩⟩, fun i j g hg => ?_, fun p hp => ?_⟩
    · refine (hmaps.others i j k hne fun hnone => ?_).trans (ho i j k (h' he))
      exact absurd (hf.symm.trans hnone) (by simp)
    · rcases htab i j with htab | htab
      · exact .inl (htab.symm.trans hg)
      · exact .inr ⟨f, Option.some.inj (hg.symm.trans htab), hl.1⟩
    · -- the frame of the new table was free
      obtain ⟨hu, g, rfl, hg⟩ := hp
      have hne : g ≠ f := fun h => Bool.false_ne_true (hl.1.symm.trans (h ▸ hg))
      have hp : 256 + g ≠ 256 + f := by omega
      refine ⟨⟨unused_of_tables (hmaps.pdpt.trans hpdpt) htab hp hu, g, rfl, ?_⟩, fun k => ?_⟩
      · rw [hpmm, hw.bit, if_neg hne, hg]
      · exact (hframes' _ k hp).trans (hframes _ k hp fun h => hu.not_dir _ (h ▸ hd))

end Paging

end WordOS.Memory
