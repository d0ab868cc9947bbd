import WordOS.Lib.Ranks
import WordOS.Memory.PdpteRuns

/-! Which frames a range of pages gets: the first free ones in order, less those taken for page tables. -/

namespace WordOS.Memory

open Machine Lib Lib.Ranks

/-- Frame `f` is free, with `k` free ones below it. -/
abbrev Pmm.FreeAt (s : Pmm) (k f : ℕ) : Prop := IsNth (fun g => s.bit g = false) k f

lemma Pmm.freeAt_zero_iff {s : Pmm} {f : ℕ} : s.FreeAt 0 f ↔ s.Lowest f := by
  rw [Pmm.FreeAt, isNth_zero_iff]
  simp only [Bool.not_eq_false]
  rfl

lemma Pmm.Writes.freeAt_iff {s t : Pmm} {f k g : ℕ} (hl : s.Lowest f) (hw : s.Writes f true t) :
    t.FreeAt k g ↔ s.FreeAt (k + 1) g := by
  refine isNth_removed (Pmm.freeAt_zero_iff.mpr hl) fun i => ?_
  rw [hw.bit]
  by_cases hi : i = f
  · simp [hi]
  · simp [hi]

namespace Paging

/-- The frames that `pae_mmap` takes for a table. -/
def newTables (s : Paging) (virt : ℕ) : ℕ := if s.table (pdpteOf virt) (pdIndexOf virt) = none then 1 else 0

def SameTable (v w : ℕ) : Prop := pdpteOf v = pdpteOf w ∧ pdIndexOf v = pdIndexOf w

variable {s t u : Paging} {pmm : Pmm} {virt phys flags v w e f k g i : ℕ}

lemma TableTaken.freeAt_iff (h : TableTaken s virt pmm) : pmm.FreeAt k g ↔ s.pmm.FreeAt (k + s.newTables virt) g := by
  rw [newTables]
  by_cases ht : s.table (pdpteOf virt) (pdIndexOf virt) = none
  · obtain ⟨f, hl, hw⟩ := h.missing ht
    rw [if_pos ht]
    exact hw.freeAt_iff hl
  · rw [if_neg ht, h.present ht, Nat.add_zero]

lemma Maps.table_same (h : Maps s virt e t) (hv : SameTable v virt) : t.table (pdpteOf v) (pdIndexOf v) ≠ none := by
  obtain ⟨f, ht, -⟩ := h.exists_table
  rw [hv.left, hv.right, ht]
  exact Option.some_ne_none f

lemma Maps.table_other (h : Maps s virt e t) (hs : s.Recursive) (hj : pdIndexOf virt ≠ 511) (hv : ¬ SameTable v virt) :
    t.table (pdpteOf v) (pdIndexOf v) = s.table (pdpteOf v) (pdIndexOf v) := by
  rw [table_window h.recursive, table_window hs]
  refine congrArg _ (h.others _ _ _ (fun _ hj' => absurd hj'.symm hj) fun _ hi _ hj' => hv ⟨hi, hj'⟩)

lemma Maps.newTables_eq (h : Maps s virt e t) (hs : s.Recursive) (hj : pdIndexOf virt ≠ 511) [Decidable (SameTable v virt)] :
    t.newTables v = if SameTable v virt then 0 else s.newTables v := by
  by_cases hv : SameTable v virt
  · rw [if_pos hv, newTables, if_neg (h.table_same hv)]
  · rw [if_neg hv, newTables, newTables, h.table_other hs hj hv]

lemma getPhysFromVirt_of_translation (hs : s.Recursive) (hv : v < 2 ^ 32) (h : s.translation v = some e) :
    getPhysFromVirt s v = .ok (pageOf e) := by
  rw [translation_entryAt hv, entryAt, PageTables.entry] at h
  cases ht : s.table (pdpteOf v) (pdIndexOf v) with
  | none =>
    rw [table] at ht
    simp [ht] at h
  | some f =>
    have he := s.entryAt_of_table (k := ptIndexOf v) ht
    rw [entryAt, PageTables.entry, h] at he
    split_ifs at he with hp
    rw [getPhysFromVirt_ok hs ht, Option.some.inj he]

/-- One pass of the loop of `vmm_page_alloc` that maps a free frame. -/
structure PageMapped (s : Paging) (virt flags f : ℕ) (t : Paging) : Prop where
  ready : t.PaeReady
  lowest : s.pmm.Lowest f
  le : f ≤ 0xF00
  maps : Maps s virt (4096 * (256 + f) ||| flags) t
  freeAt : ∀ k g, t.pmm.FreeAt k g ↔ s.pmm.FreeAt (k + s.newTables virt + 1) g

lemma PaeReady.mapPages_succ {rootPd base n : ℕ} (hs : s.PaeReady) (hj : pdIndexOf (u32 (base + i)) ≠ 511) (hf : flags < 4096)
    (hm : mapPages rootPd base 0 flags true (n + 1) i s = .ok t) :
    ∃ f u, PageMapped s (u32 (base + i)) flags f u ∧ mapPages rootPd base 0 flags true n (i + 4096) u = .ok t := by
  rw [mapPages] at hm
  simp only [if_true] at hm
  obtain ⟨⟨p, pmm⟩, ha, hm⟩ := bind_eq_ok.mp hm
  simp only [pure_eq, ok_bind] at hm
  obtain ⟨u, hu, hrest⟩ := bind_eq_ok.mp hm
  obtain ⟨f, hle, hl, rfl, hw, -⟩ := allocPhysPage_low hs.spare.headroom ha
  obtain ⟨-, -, -, hready, -⟩ := hs.alloc ha
  obtain ⟨hu', hmaps, -, htaken, -⟩ := hready.paeMmap hj hf hu
  refine ⟨f, u, ⟨hu', hl, hle, ⟨hmaps.recursive, hmaps.pdpt, ?_, hmaps.exists_table, hmaps.others⟩, fun k g => ?_⟩, hrest⟩
  · exact hmaps.numFrames.trans hw.numFrames
  · exact htaken.freeAt_iff.trans (hw.freeAt_iff hl)

lemma PageMapped.translation_self (h : PageMapped s virt flags f t) (hpres : Present flags) (hv : virt < 2 ^ 32) (hw : w < 2 ^ 32)
    (hpage : w / 4096 = virt / 4096) : t.translation w = some (4096 * (256 + f) ||| flags) := by
  rw [h.maps.translation_self hv hw hpage, if_pos (present_or hpres)]

/-- Three pages in the kernel's dynamic range. -/
structure KernelRange (base : ℕ) : Prop where
  page : base % 4096 = 0
  low : 0xCC000000 ≤ base
  high : base + 4096 * 3 ≤ 0xFFE00000

lemma KernelRange.pdIndexOf_ne {base : ℕ} (h : KernelRange base) (hl : base ≤ v) (hh : v < base + 4096 * 3) : pdIndexOf v ≠ 511 := by
  obtain ⟨-, hlow, hhigh⟩ := h
  rw [pdIndexOf, u32]
  omega

instance (v w : ℕ) : Decidable (SameTable v w) := inferInstanceAs (Decidable (_ ∧ _))

/-- The second and the third page, with the rank of their frames among the free ones before. -/
structure Consecutive (s t : Paging) (base f₁ f₂ : ℕ) : Prop where
  ready : t.PaeReady
  second : s.pmm.FreeAt (s.newTables base + 1) f₁
  third : s.pmm.FreeAt ((if SameTable (base + 4096) base then 0 else s.newTables (base + 4096)) + 1 + s.newTables base + 1) f₂
  le : f₁ ≤ 0xF00 ∧ f₂ ≤ 0xF00
  maps_second : ∀ w < 2 ^ 32, w / 4096 = base / 4096 + 1 → t.translation w = some (4096 * (256 + f₁) ||| 0x3)
  maps_third : ∀ w < 2 ^ 32, w / 4096 = base / 4096 + 2 → t.translation w = some (4096 * (256 + f₂) ||| 0x3)

lemma PaeReady.mapPages_three {rootPd base : ℕ} (hs : s.PaeReady) (hb : KernelRange base)
    (hm : mapPages rootPd base 0 0x3 true 3 0 s = .ok t) : ∃ f₁ f₂, Consecutive s t base f₁ f₂ := by
  have hwin : ∀ k < 3, pdIndexOf (u32 (base + 4096 * k)) ≠ 511 ∧ u32 (base + 4096 * k) = base + 4096 * k := by
    intro k hk
    have hu : u32 (base + 4096 * k) = base + 4096 * k := u32_eq (by have := hb.high; omega)
    rw [hu]
    exact ⟨hb.pdIndexOf_ne (by omega) (by omega), rfl⟩
  have hhigh := hb.high
  have hpage := hb.page
  obtain ⟨hj₀, hu₀⟩ := hwin 0 (by decide)
  obtain ⟨hj₁, hu₁⟩ := hwin 1 (by decide)
  obtain ⟨hj₂, hu₂⟩ := hwin 2 (by decide)
  obtain ⟨f₀, s₁, h₁, hm⟩ := hs.mapPages_succ hj₀ (by norm_num) hm
  obtain ⟨f₁, s₂, h₂, hm⟩ := h₁.ready.mapPages_succ hj₁ (by norm_num) hm
  obtain ⟨f₂, s₃, h₃, hm⟩ := h₂.ready.mapPages_succ hj₂ (by norm_num) hm
  obtain rfl := Except.ok.inj hm
  simp only [Nat.mul_zero, Nat.mul_one, Nat.add_zero] at hu₀ hu₁ hu₂ hj₀ hj₁ hj₂ h₁ h₂ h₃
  rw [hu₀] at h₁ hj₀
  rw [hu₁] at h₂ hj₁
  rw [hu₂] at h₃ hj₂
  have hfirst := (h₁.freeAt 0 f₁).mp (Pmm.freeAt_zero_iff.mpr h₂.lowest)
  have hsecond := (h₁.freeAt _ f₂).mp ((h₂.freeAt 0 f₂).mp (Pmm.freeAt_zero_iff.mpr h₃.lowest))
  rw [h₁.maps.newTables_eq hs.recursive hj₀] at hsecond
  simp only [Nat.zero_add] at hfirst hsecond
  refine ⟨f₁, f₂, h₃.ready, hfirst, hsecond, ⟨h₂.le, h₃.le⟩, fun w hw hwp => ?_, fun w hw hwp => ?_⟩
  · rw [h₃.maps.translation_outside (by omega) hw (by omega) (hb.pdIndexOf_ne (by omega) (by omega))]
    exact h₂.translation_self rfl (by omega) hw (by omega)
  · exact h₃.translation_self rfl (by omega) hw (by omega)

/-- The third page's frame follows the second's. -/
lemma Consecutive.next_iff {base f₁ f₂ : ℕ} (h : Consecutive s t base f₁ f₂) : f₂ = f₁ + 1 ↔
    s.pmm.bit (f₁ + 1) = false ∧ (SameTable (base + 4096) base ∨ s.newTables (base + 4096) = 0) := by
  have hnext := h.second.succ_iff
  constructor
  · rintro rfl
    have hfree := h.third.left
    have hrank := h.third.rank_unique (hnext.mpr hfree)
    refine ⟨hfree, ?_⟩
    by_cases hsame : SameTable (base + 4096) base
    · exact Or.inl hsame
    · rw [if_neg hsame] at hrank
      exact Or.inr (by omega)
  · rintro ⟨hfree, htab⟩
    have hzero : (if SameTable (base + 4096) base then 0 else s.newTables (base + 4096)) = 0 := by
      rcases htab with hsame | hzero
      · exact if_pos hsame
      · rw [hzero, ite_self]
    have hthird := h.third
    rw [hzero, Nat.zero_add, Nat.add_comm 1] at hthird
    exact hthird.unique (hnext.mpr hfree)

lemma mapPages_only {rootPd base n : ℕ} (h : ∀ k < n, pdpteOf (u32 (base + (i + 4096 * k))) = 3) :
    mapPages rootPd base 0 flags true n i (s.only 3) = (mapPages rootPd base 0 flags true n i s).map (only 3) := by
  induction n generalizing s i with
  | zero => rfl
  | succ n ih =>
    have hfirst := h 0 (Nat.succ_pos n)
    rw [Nat.mul_zero, Nat.add_zero] at hfirst
    have hpmm : (s.only 3).pmm = s.pmm := rfl
    rw [mapPages, mapPages]
    simp only [if_true, hpmm]
    refine bind_only fun q => ?_
    have he : ({ s.only 3 with pmm := q.2 } : Paging) = ({ s with pmm := q.2 } : Paging).only 3 := rfl
    simp only [pure_eq, ok_bind]
    rw [he, paeMmap_only hfirst]
    refine map_only_bind fun t => ih fun k hk => ?_
    have hnext := h (k + 1) (by omega)
    rwa [show i + 4096 * (k + 1) = i + 4096 + 4096 * k by omega] at hnext

lemma getPhysFromVirt_only (hi : pdpteOf v = i) : getPhysFromVirt (s.only i) v = getPhysFromVirt s v := by
  have hi4 : i < 4 := hi ▸ pdpteOf_lt v
  have hpd : (pdWindow i + 8 * pdIndexOf v) / 2 ^ 30 = i := by
    rw [pdWindow_eq hi4]
    exact window_part hi4 (by norm_num) (pdIndexOf_lt v)
  have hpt := window_part hi4 (pdIndexOf_lt v) (ptIndexOf_lt v)
  rw [getPhysFromVirt, getPhysFromVirt, hi, load64_only hpd, load64_only hpt]

lemma table_only {j : ℕ} : (s.only i).table i j = s.table i j := by
  have hd : (s.only i).directory i = s.directory i := by
    rw [directory, directory, show (s.only i).pdpt i = s.pdpt i from if_pos rfl]
  rw [table, table, PageTables.table, PageTables.table, hd]
  rfl

lemma newTables_only (hi : pdpteOf v = i) : (s.only i).newTables v = s.newTables v := by
  rw [newTables, newTables, hi, table_only]

lemma KernelRange.pdpteOf_eq {base : ℕ} (h : KernelRange base) (hl : base ≤ v) (hh : v < base + 4096 * 3) : pdpteOf v = 3 := by
  obtain ⟨-, hlow, hhigh⟩ := h
  rw [pdpteOf, u32]
  omega

end Paging

end WordOS.Memory
