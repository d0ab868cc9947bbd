import WordOS.Memory.PaeMap

/-! `pae_mmap` and `pae_unmap` change the translation of one page. -/

namespace WordOS.Memory

open Machine Lib

namespace Paging

variable {s t : Paging} {pmm : Pmm} {virt phys flags v w e i j : ℕ}

lemma translation_entryAt (hv : v < 2 ^ 32) : s.translation v = s.entryAt (pdpteOf v) (pdIndexOf v) (ptIndexOf v) := by
  rw [pdpteOf, pdIndexOf, ptIndexOf, u32_eq hv]
  rfl

lemma page_eq_iff (hv : v < 2 ^ 32) (hw : w < 2 ^ 32) : w / 2 ^ 12 = v / 2 ^ 12 ↔
    pdpteOf w = pdpteOf v ∧ pdIndexOf w = pdIndexOf v ∧ ptIndexOf w = ptIndexOf v := by
  simp only [pdpteOf, pdIndexOf, ptIndexOf, u32_eq hv, u32_eq hw]
  omega

lemma window_page (hi : i < 4) (hj : j < 512) (hw : w < 2 ^ 32) (hwi : pdpteOf w = i) (hwj : pdIndexOf w = 511)
    (hwk : ptIndexOf w = j) : w / 2 ^ 12 = ptWindow i j / 2 ^ 12 := by
  simp only [pdpteOf, pdIndexOf, ptIndexOf, u32_eq hw] at hwi hwj hwk
  rw [ptWindow_eq hi hj]
  omega

lemma pdIndexOf_window (hi : i < 4) (hj : j < 512) (hw : w < 2 ^ 32) (hpage : w / 2 ^ 12 = ptWindow i j / 2 ^ 12) :
    pdIndexOf w = 511 := by
  rw [ptWindow_eq hi hj] at hpage
  rw [pdIndexOf, u32_eq hw]
  omega

namespace Maps

lemma translation_ne (h : Maps s virt e t) (hv : virt < 2 ^ 32) (hw : w < 2 ^ 32) (hne : w / 2 ^ 12 ≠ virt / 2 ^ 12)
    (hwin : s.table (pdpteOf virt) (pdIndexOf virt) = none → w / 2 ^ 12 ≠ ptWindow (pdpteOf virt) (pdIndexOf virt) / 2 ^ 12) :
    t.translation w = s.translation w := by
  rw [translation_entryAt hw, translation_entryAt hw]
  refine h.others _ _ _ (fun hi hj hk => hne ((page_eq_iff hv hw).mpr ⟨hi, hj, hk⟩)) fun hnone hi hj hk => ?_
  exact hwin hnone (window_page (pdpteOf_lt virt) (pdIndexOf_lt virt) hw hi hj hk)

lemma getPhysFromVirt (h : Maps s virt e t) (hv : virt < 2 ^ 32) (hw : w < 2 ^ 32) (hpage : w / 2 ^ 12 = virt / 2 ^ 12) :
    getPhysFromVirt t w = .ok (pageOf e) := by
  obtain ⟨hi, hj, hk⟩ := (page_eq_iff hv hw).mp hpage
  obtain ⟨f, ht, he⟩ := h.exists_table
  rw [← hi, ← hj] at ht
  rw [getPhysFromVirt_ok h.recursive ht, hk, he]

lemma translation_self (h : Maps s virt e t) (hv : virt < 2 ^ 32) (hw : w < 2 ^ 32) (hpage : w / 2 ^ 12 = virt / 2 ^ 12) :
    t.translation w = if Present e then some e else none := by
  obtain ⟨hi, hj, hk⟩ := (page_eq_iff hv hw).mp hpage
  obtain ⟨f, ht, he⟩ := h.exists_table
  rw [translation_entryAt hw, hi, hj, hk, entryAt_of_table ht, he]

lemma translation_outside (h : Maps s virt e t) (hv : virt < 2 ^ 32) (hw : w < 2 ^ 32) (hne : w / 2 ^ 12 ≠ virt / 2 ^ 12)
    (hwin : pdIndexOf w ≠ 511) : t.translation w = s.translation w :=
  h.translation_ne hv hw hne fun _ hpage => hwin (pdIndexOf_window (pdpteOf_lt virt) (pdIndexOf_lt virt) hw hpage)

end Maps

lemma pageOf_or (ha : phys % 4096 = 0) (hf : flags < 4096) : pageOf (phys ||| flags) = phys := by
  obtain ⟨f, rfl⟩ : ∃ f, phys = 2 ^ 12 * f := ⟨phys / 4096, by omega⟩
  rw [← Nat.two_pow_add_eq_or_of_lt (by omega), pageOf]
  omega

/-- Mapping and unmapping one page. Where the page has no table yet, the page through which the
new table is reached is mapped too. -/
theorem paeMmap_paeUnmap (hs : s.Recursive) (hp : Present (s.pdpt (pdpteOf virt))) (hv : virt < 2 ^ 32)
    (hj : pdIndexOf virt ≠ 511) (hphys : phys < 2 ^ s.maxBitExtension) (h64 : phys < 2 ^ 64) (ha : phys % 4096 = 0)
    (hflags : flags < 0x1000) (hpres : Present flags) (hn : 4 ≤ s.pmm.numFrames)
    (halloc : s.table (pdpteOf virt) (pdIndexOf virt) = none →
      ∃ p pmm, allocPhysPage s.pmm = .ok (p, pmm) ∧ s.Unused (p / 4096)) :
    ∃ t u, paeMmap s phys virt flags = .ok t ∧ paeUnmap t virt = .ok u ∧
      (∀ w < 2 ^ 32, w / 2 ^ 12 = virt / 2 ^ 12 → Memory.getPhysFromVirt t w = .ok phys ∧
        t.translation w = some (phys ||| flags) ∧ Memory.getPhysFromVirt u w = .ok 0 ∧ u.translation w = none) ∧
      ∀ w < 2 ^ 32, w / 2 ^ 12 ≠ virt / 2 ^ 12 →
        (s.table (pdpteOf virt) (pdIndexOf virt) = none → w / 2 ^ 12 ≠ ptWindow (pdpteOf virt) (pdIndexOf virt) / 2 ^ 12) →
        t.translation w = s.translation w ∧ u.translation w = s.translation w := by
  have hx : phys ||| flags < 2 ^ 64 := Nat.or_lt_two_pow h64 (hflags.trans (by norm_num))
  obtain ⟨t, ht, hm⟩ := paeMmap_ok hs hp hj hphys (by omega) hx halloc
  obtain ⟨f, htab, -⟩ := hm.exists_table
  obtain ⟨u, hu, hm'⟩ := paeUnmap_ok hm.recursive hj (hm.numFrames ▸ hn) htab
  refine ⟨t, u, ht, hu, fun w hw hpage => ⟨?_, ?_, ?_, ?_⟩, fun w hw hne hwin => ?_⟩
  · rw [hm.getPhysFromVirt hv hw hpage, pageOf_or ha hflags]
  · have hpe : Present (phys ||| flags) := by
      rw [Present, Nat.or_mod_two_eq_one]
      exact .inr hpres
    rw [hm.translation_self hv hw hpage, if_pos hpe]
  · exact hm'.getPhysFromVirt hv hw hpage
  · exact hm'.translation_self hv hw hpage
  · have h := hm.translation_ne hv hw hne hwin
    refine ⟨h, (hm'.translation_ne hv hw hne fun hnone => ?_).trans h⟩
    exact absurd (htab.symm.trans hnone) (by simp)

/-- A page directory for the last GiB without tables, in frame 1. -/
def onePd : Paging where
  phys := fun f i => if f = 1 ∧ i = 1022 then 0x1003 else 0
  pmm := ⟨fun _ => 0, NUM_FRAMES⟩
  cr3 := 0
  pdpt := fun i => if i = 3 then 0x1001 else 0
  maxBitExtension := 36

lemma onePd_directory : onePd.directory i = if i = 3 then some 1 else none := by
  by_cases h : i = 3
  · subst h
    decide
  · rw [if_neg h, directory]
    split_ifs
    · rw [show onePd.pdpt i = 0 from if_neg h]
      rfl
    · rfl

lemma onePd_table : onePd.table i j = if i = 3 ∧ j = 511 then some 1 else none := by
  rw [table, PageTables.table, onePd_directory]
  by_cases hi : i = 3
  · rw [if_pos hi, Option.bind_some]
    by_cases hj : j = 511
    · subst hj
      rw [if_pos ⟨hi, rfl⟩]
      decide
    · rw [if_neg (fun h => hj h.2), entries64]
      split_ifs
      · have h : onePd.phys.read64 1 j = 0 := by
          simp only [onePd, Phys.read64]
          rw [if_neg (by omega), if_neg (by omega)]
          rfl
        rw [h]
        rfl
      · rfl
  · rw [if_neg hi, if_neg (fun h => hi h.1), Option.bind_none]

lemma onePd_recursive : onePd.Recursive := by
  have ht : ∀ i j t, onePd.table i j = some t → i = 3 ∧ j = 511 ∧ t = 1 := fun i j t h => by
    rw [onePd_table] at h
    split_ifs at h with hij
    exact ⟨hij.1, hij.2, (Option.some.inj h).symm⟩
  have hd : ∀ i d, onePd.directory i = some d → i = 3 ∧ d = 1 := fun i d h => by
    rw [onePd_directory] at h
    split_ifs at h with hi
    exact ⟨hi, (Option.some.inj h).symm⟩
  refine ⟨fun i d h => ?_, fun i i' d h h' => (hd i d h).1.trans (hd i' d h').1.symm,
    fun i j t i' hj h => absurd (ht i j t h).2.1 hj, fun i j i' j' t hj _ h => absurd (ht i j t h).2.1 hj⟩
  obtain ⟨rfl, rfl⟩ := hd i d h
  decide

lemma onePd_alloc : ∃ p pmm, allocPhysPage onePd.pmm = .ok (p, pmm) ∧ onePd.Unused (p / 4096) := by
  obtain ⟨⟨p, pmm⟩, h, hp⟩ := exists_of_toOption_map (x := allocPhysPage onePd.pmm) (g := Prod.fst) (c := 0x100000)
    (by decide)
  obtain rfl : p = 0x100000 := hp
  refine ⟨_, pmm, h, fun i hi => ?_, fun i j hij => ?_⟩
  · rw [onePd_directory] at hi
    split_ifs at hi
    exact absurd (Option.some.inj hi) (by decide)
  · rw [show PageTables.table target onePd.entries64 onePd.directory i j = onePd.table i j from rfl, onePd_table] at hij
    split_ifs at hij
    exact absurd (Option.some.inj hij) (by decide)

theorem paeMmap_paeUnmap_one : ∃ t u, paeMmap onePd 0x5000 0xC0000000 3 = .ok t ∧ paeUnmap t 0xC0000000 = .ok u ∧
    Memory.getPhysFromVirt t 0xC0000000 = .ok 0x5000 ∧ Memory.getPhysFromVirt u 0xC0000000 = .ok 0 ∧
    u.translation 0xC0001000 = onePd.translation 0xC0001000 := by
  obtain ⟨t, u, ht, hu, hpage, hother⟩ : ∃ t u, paeMmap onePd 0x5000 0xC0000000 3 = .ok t ∧ _ := paeMmap_paeUnmap onePd_recursive
    (by decide) (by decide) (by decide) (by decide) (by decide) (by decide) (by decide) (by decide) (by decide)
    fun _ => onePd_alloc
  obtain ⟨h₁, -, h₂, -⟩ := hpage 0xC0000000 (by decide) rfl
  exact ⟨t, u, ht, hu, h₁, h₂, (hother 0xC0001000 (by decide) (by decide) fun _ => by decide).2⟩

/-- The page at 0xFFE00000 is the window of the table created for 0xC0000000. -/
theorem paeMmap_window : onePd.Recursive ∧ (∃ p pmm, allocPhysPage onePd.pmm = .ok (p, pmm) ∧ onePd.Unused (p / 4096)) ∧
    ∃ t, paeMmap onePd 0x5000 0xC0000000 3 = .ok t ∧
    onePd.walk64 0xFFE00000 = none ∧ t.walk64 0xFFE00000 ≠ none := by
  obtain ⟨t, ht, hm⟩ : ∃ t, paeMmap onePd 0x5000 0xC0000000 3 = .ok t ∧ _ := paeMmap_ok onePd_recursive
    (by decide) (by decide) (by decide) (by decide) (by decide) fun _ => onePd_alloc
  obtain ⟨f, hf, -⟩ := hm.exists_table
  refine ⟨onePd_recursive, onePd_alloc, t, ht, by decide, ?_⟩
  have hw := walk64_window hm.recursive hf (k := 0) (by norm_num)
  rw [show ptWindow (pdpteOf 0xC0000000) (pdIndexOf 0xC0000000) + 8 * 0 = 0xFFE00000 by decide] at hw
  simp [hw]

end Paging

end WordOS.Memory
