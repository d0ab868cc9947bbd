import WordOS.Memory.PdTables
import WordOS.Memory.Vmm

/-! The frames behind pages that were mapped one by one. -/

namespace WordOS.Memory

open Machine Lib

namespace Paging

/-- The entry for the page of `addr`, in whichever table it has. -/
def pageEntry (p : Paging) (addr : ℕ) : ℕ := ((p.table32 (pdOf addr)).map fun f => p.phys f (ptOf addr)).getD 0

/-- The frame behind a page, as `memory_unmap` numbers it. -/
def frameBehind (p : Paging) (addr : ℕ) : ℕ := physicalToFrame (pageOf (p.pageEntry addr))

end Paging

def IsPage (addr : ℕ) : Prop := addr % 4096 = 0 ∧ addr + 4096 ≤ RECURSIVE_ADDR

/-- Besides those taken before, the frames behind the pages of `l` are taken, one for each page. -/
structure Backed (before : ℕ → Bool) (p : Paging) (l : List ℕ) : Prop where
  recursive : p.Recursive32
  sized : p.pmm.numFrames = NUM_FRAMES
  page : ∀ a ∈ l, IsPage a ∧ (∃ f, p.table32 (pdOf a) = some f) ∧ p.frameBehind a ≤ NUM_FRAMES ∧ before (p.frameBehind a) = false
  frames : ∀ f, p.pmm.bit f = true ↔ before f = true ∨ ∃ a ∈ l, p.frameBehind a = f
  distinct : (l.map p.frameBehind).Nodup

variable {before : ℕ → Bool} {p p' : Paging} {pmm : Pmm} {l l' : List ℕ} {a b f g x flags : ℕ}

lemma IsPage.pd_ne (h : IsPage a) : pdOf a ≠ 1023 := by
  obtain ⟨-, h⟩ := h
  rw [RECURSIVE_ADDR] at h
  rw [pdOf, u32]
  omega

lemma IsPage.indices_ne (ha : IsPage a) (hb : IsPage b) (hne : a ≠ b) : pdOf a = pdOf b → ptOf a ≠ ptOf b := by
  obtain ⟨ha, ha'⟩ := ha
  obtain ⟨hb, hb'⟩ := hb
  rw [RECURSIVE_ADDR] at ha' hb'
  rw [pdOf, pdOf, ptOf, ptOf, u32, u32]
  omega

lemma Paging.pageEntry_of_table (ht : p.table32 (pdOf a) = some f) : p.pageEntry a = p.phys f (ptOf a) := by
  rw [pageEntry, ht]
  rfl

lemma Paging.pageEntry_setWord_self (ht : (p.setWord f (ptOf a) x).table32 (pdOf a) = some f) :
    (p.setWord f (ptOf a) x).pageEntry a = u32 x := by
  rw [pageEntry_of_table ht, phys_setWord_self]

lemma Paging.pageEntry_setWord (hs : p.Recursive32) (ha : IsPage a) (hb : IsPage b) (hne : b ≠ a)
    (ht : p.table32 (pdOf a) = some f) : (p.setWord f (ptOf a) x).pageEntry b = p.pageEntry b := by
  have htab := (setWord_ok hs ha.pd_ne ht (ptOf a) x).2.1 (pdOf b)
  rw [pageEntry, pageEntry, htab]
  cases hg : p.table32 (pdOf b) with
  | none => rfl
  | some g =>
    have hw : (p.setWord f (ptOf a) x).phys g (ptOf b) = p.phys g (ptOf b) := by
      apply phys_setWord
      rintro rfl
      have hd : pdOf a = pdOf b := (hs.table_frame ha.pd_ne ht hg).2
      exact (hb.indices_ne ha hne) hd.symm
    simp [hw]

namespace Backed

lemma perm (h : Backed before p l) (hl : l.Perm l') : Backed before p l' :=
  ⟨h.recursive, h.sized, fun a ha => h.page a (hl.mem_iff.mpr ha), fun f => (h.frames f).trans (by simp only [hl.mem_iff]),
    (hl.map _).nodup_iff.mp h.distinct⟩

lemma frameBehind_setWord (hs : p.Recursive32) (hl : ∀ b ∈ l, IsPage b) (ha : IsPage a) (hal : a ∉ l)
    (ht : p.table32 (pdOf a) = some f) :
    ∀ b ∈ l, ({ p with pmm := pmm }.setWord f (ptOf a) x).frameBehind b = p.frameBehind b := by
  intro b hb
  have hne : b ≠ a := by
    rintro rfl
    exact hal hb
  exact congrArg (fun e => physicalToFrame (pageOf e)) (Paging.pageEntry_setWord hs ha (hl b hb) hne ht)

lemma entry_frame (hf : f ≤ NUM_FRAMES) (hflags : flags < 4096) :
    physicalToFrame (pageOf (u32 (u32 (frameToPhysical f) ||| flags))) = f := by
  rw [NUM_FRAMES] at hf
  have hp : frameToPhysical f = 2 ^ 12 * (256 + f) := by
    rw [frameToPhysical_eq (by omega)]
    omega
  have hu : u32 (frameToPhysical f) ||| flags = frameToPhysical f + flags := by
    rw [u32_eq (by omega), hp]
    exact (Nat.two_pow_add_eq_or_of_lt (by simpa using hflags) _).symm
  have hpage : pageOf (frameToPhysical f + flags) = frameToPhysical f := by
    rw [pageOf]
    omega
  rw [hu, u32_eq (by omega), hpage]
  exact physicalToFrame_frameToPhysical (by omega)

lemma setWord (h : Backed before p l) (ha : IsPage a) (hal : a ∉ l) (ht : p.table32 (pdOf a) = some f) (hg : g ≤ NUM_FRAMES)
    (hclear : p.pmm.bit g = false) (hw : p.pmm.Writes g true pmm) (hx : physicalToFrame (pageOf (u32 x)) = g) :
    Backed before ({ p with pmm := pmm }.setWord f (ptOf a) x) (a :: l) := by
  obtain ⟨hs, htab, -⟩ := Paging.setWord_ok (s := { p with pmm := pmm }) h.recursive ha.pd_ne ht (ptOf a) x
  have hold : ∀ b ∈ l, ({ p with pmm := pmm }.setWord f (ptOf a) x).frameBehind b = p.frameBehind b :=
    frameBehind_setWord h.recursive (fun b hb => (h.page b hb).1) ha hal ht
  have hnew : ({ p with pmm := pmm }.setWord f (ptOf a) x).frameBehind a = g := by
    rw [Paging.frameBehind, Paging.pageEntry_setWord_self ((htab (pdOf a)).trans ht), hx]
  have hno : ¬ (before g = true ∨ ∃ b ∈ l, p.frameBehind b = g) := by
    rw [← h.frames, hclear]
    exact Bool.false_ne_true
  refine ⟨hs, hw.numFrames.trans h.sized, fun b hb => ?_, fun i => ?_, ?_⟩
  · rcases List.mem_cons.mp hb with rfl | hb
    · rw [hnew]
      exact ⟨ha, ⟨f, (htab _).trans ht⟩, hg, by simpa using fun hb => hno (.inl hb)⟩
    · obtain ⟨hpage, ⟨f', hf'⟩, hrest⟩ := h.page b hb
      rw [hold b hb]
      exact ⟨hpage, ⟨f', (htab _).trans hf'⟩, hrest⟩
  · have hmem : (∃ b ∈ a :: l, ({ p with pmm := pmm }.setWord f (ptOf a) x).frameBehind b = i) ↔
        g = i ∨ ∃ b ∈ l, p.frameBehind b = i := by
      simp only [List.mem_cons, exists_eq_or_imp, hnew]
      refine or_congr Iff.rfl (exists_congr fun b => and_congr_right fun hb => ?_)
      rw [hold b hb]
    rw [hmem]
    refine (Bool.eq_iff_iff.mp (hw.bit i)).trans ?_
    by_cases hi : i = g
    · simp [hi]
    · rw [if_neg hi, h.frames, or_left_comm, or_iff_right (Ne.symm hi)]
  · rw [List.map_cons, hnew, List.map_congr_left hold]
    refine List.nodup_cons.mpr ⟨fun hm => ?_, h.distinct⟩
    obtain ⟨b, hb, he⟩ := List.mem_map.mp hm
    exact hno (.inr ⟨b, hb, he⟩)

/-- The loop of `vmm_page_alloc` for one page, when some frame that `clear_frame` can release is clear. -/
lemma map (h : Backed before p l) (ha : IsPage a) (hal : a ∉ l) (ht : p.table32 (pdOf a) = some f) (hflags : flags < 4096)
    (hfree : ∃ g ≤ NUM_FRAMES, p.pmm.bit g = false) (hm : mapPages p.cr3 a 0 flags false 1 0 p = .ok p') :
    Backed before p' (a :: l) ∧ p'.cr3 = p.cr3 := by
  obtain ⟨g, hg, hbit⟩ := hfree
  obtain ⟨g, hle, hl⟩ := Pmm.exists_lowest hbit
  have hle : g ≤ NUM_FRAMES := hle.trans hg
  have hlt : g ≤ 2560 := hle
  have hp : frameToPhysical g = 4096 * (256 + g) := by
    rw [frameToPhysical_eq (by omega)]
    omega
  obtain ⟨pmm, hw, halloc⟩ := allocPhysPage_lowest hl (by rw [h.sized, NUM_FRAMES]; omega)
  rw [if_neg (by omega)] at halloc
  have hua : u32 (a + 0) = a := u32_eq (by have := ha.2; rw [RECURSIVE_ADDR] at this; omega)
  have hmap : memoryMap { p with pmm := pmm } p.cr3 (frameToPhysical g) a flags =
      .ok ({ p with pmm := pmm }.setWord f (ptOf a) (u32 (frameToPhysical g) ||| flags)) :=
    Paging.memoryMap_present (s := { p with pmm := pmm }) h.recursive ht (by rw [u32]; omega)
  simp only [mapPages, if_true, halloc, ok_bind, pure_eq, hua, Bool.false_eq_true, if_false, hmap] at hm
  obtain rfl := Except.ok.inj hm
  exact ⟨h.setWord ha hal ht hle hl.1 hw (entry_frame hle hflags), rfl⟩

lemma unmap (h : Backed before p (a :: l)) (hm : memoryUnmap p p.cr3 a = .ok p') : Backed before p' l ∧ p'.cr3 = p.cr3 := by
  obtain ⟨ha, ⟨f, ht⟩, hle, hclear⟩ := h.page a List.mem_cons_self
  obtain ⟨hdist, hnodup⟩ := List.nodup_cons.mp h.distinct
  have hlt : p.frameBehind a ≤ 2560 := hle
  have hal : a ∉ l := fun hal => hdist (List.mem_map_of_mem hal)
  have haligned : u32 a % 2 ^ 10 = 0 := by
    have := ha.1
    rw [u32]
    omega
  have hle' : p.frameBehind a ≤ p.pmm.numFrames := by
    rw [h.sized]
    exact hle
  obtain ⟨pmm, hc, hw⟩ := clearFrame_ok hle' (by rw [h.sized, NUM_FRAMES]; omega)
  rw [Paging.frameBehind, Paging.pageEntry_of_table ht] at hc
  have hun := Paging.memoryUnmap_present h.recursive ht haligned hc
  obtain rfl := Except.ok.inj (hun.symm.trans hm)
  obtain ⟨hs, htab, -⟩ := Paging.setWord_ok (s := { p with pmm := pmm }) h.recursive ha.pd_ne ht (ptOf a) 0
  have hold : ∀ b ∈ l, ({ p with pmm := pmm }.setWord f (ptOf a) 0).frameBehind b = p.frameBehind b :=
    frameBehind_setWord h.recursive (fun b hb => (h.page b (List.mem_cons_of_mem _ hb)).1) ha hal ht
  refine ⟨⟨hs, hw.numFrames.trans h.sized, fun b hb => ?_, fun i => ?_, ?_⟩, rfl⟩
  · obtain ⟨hpage, ⟨f', hf'⟩, hrest⟩ := h.page b (List.mem_cons_of_mem _ hb)
    rw [hold b hb]
    exact ⟨hpage, ⟨f', (htab _).trans hf'⟩, hrest⟩
  · have hmem : (∃ b ∈ l, ({ p with pmm := pmm }.setWord f (ptOf a) 0).frameBehind b = i) ↔ ∃ b ∈ l, p.frameBehind b = i := by
      refine exists_congr fun b => and_congr_right fun hb => ?_
      rw [hold b hb]
    rw [hmem]
    refine (Bool.eq_iff_iff.mp (hw.bit i)).trans ?_
    by_cases hi : i = p.frameBehind a
    · have hno : ¬ ∃ b ∈ l, p.frameBehind b = p.frameBehind a := by
        rintro ⟨b, hb, he⟩
        exact hdist (he ▸ List.mem_map_of_mem hb)
      simp [hi, hclear, hno]
    · rw [if_neg hi, h.frames]
      simp only [List.mem_cons, exists_eq_or_imp]
      rw [or_iff_right (Ne.symm hi)]
  · rw [List.map_congr_left hold]
    exact hnodup

end Backed

end WordOS.Memory
