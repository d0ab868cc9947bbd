import WordOS.Memory.PdFrames
import WordOS.Memory.Transfer
import WordOS.Memory.VmmTakeFrame

/-! The pages that `transfer_pages_to_pae` takes for itself, and the tables it writes through them. -/

namespace WordOS.Memory

open Machine Lib

/-- The pages and the frames that `page_kalloc` and `alloc_phys_page` hand out next, in turn. -/
inductive Supplies (fuel : ℕ) : VmmState → List (ℕ × ℕ) → Prop
  | nil {s} : Supplies fuel s []
  | cons {s u b p pmm l} : allocPhysPage s.paging.pmm = .ok (p, pmm) → p ≠ 0 →
      vmmTakeRange fuel s s.kernelVmm 4096 = .ok (some b, u) →
      Supplies fuel (u.withPaging { s.paging with pmm := pmm }) l → Supplies fuel s ((b, p) :: l)

/-- The entry of some page of `l`. -/
def Remaps (l : List (ℕ × ℕ)) (j k : ℕ) : Prop := ∃ q ∈ l, j = pdOf q.1 ∧ k = ptOf q.1

/-- The page tables while those of the pages of `l` change that have been taken. -/
structure Midway (s : Paging) (l used : List (ℕ × ℕ)) (t : Paging) : Prop where
  cr3 : t.cr3 = s.cr3
  recursive : t.Recursive32
  tables : ∀ j, t.table32 j = s.table32 j
  words : ∀ j k f, s.table32 j = some f → k < 1024 → ¬ Remaps l j k → t.phys f k = s.phys f k
  bound : ∀ f i, t.phys f i < 2 ^ 32
  sized : t.pmm.numFrames = NUM_FRAMES
  free : ∀ f, t.pmm.bit f = false → s.Unused32 (256 + f)
  page : ∀ q ∈ used, q ∈ l ∧ t.pageEntry q.1 = q.2 + 3
  frame : ∀ q ∈ used, ∃ f < 2 ^ 19, q.2 = 4096 * (256 + f) ∧ s.Unused32 (256 + f) ∧ t.pmm.bit f = true
  others : ∀ g, s.Unused32 g → (∀ q ∈ used, q.2 / 4096 ≠ g) → t.phys g = s.phys g

/-- Pages below the recursive slot that have a table each. -/
structure Mappable (s : Paging) (l : List (ℕ × ℕ)) : Prop where
  page : ∀ q ∈ l, IsPage q.1 ∧ ∃ f, s.table32 (pdOf q.1) = some f
  nodup : (l.map Prod.fst).Nodup

variable {s t t' : Paging} {S S' : VmmState} {l l' used : List (ℕ × ℕ)} {pmm : Pmm} {fuel b p f g i j k n o v x off : ℕ}

lemma Supplies.withPaging (h : Supplies fuel S l) (ht : t.pmm = S.paging.pmm) : Supplies fuel (S.withPaging t) l := by
  induction h generalizing t with
  | nil => exact .nil
  | @cons S u b p pmm l ha hp hm _ ih =>
    rw [← ht] at ha
    have htail : Supplies fuel (u.withPaging { t with pmm := pmm }) l := ih rfl
    exact .cons ha hp (vmmTakeRange_withPaging_ok hm t) htail

lemma allocPhysPage_frame (hn : t.pmm.numFrames = NUM_FRAMES) (ha : allocPhysPage t.pmm = .ok (p, pmm)) (hp : p ≠ 0) :
    ∃ f < 2 ^ 19, p = 4096 * (256 + f) ∧ t.pmm.bit f = false ∧ t.pmm.Writes f true pmm := by
  rcases allocPhysPage_ok ha with ⟨-, rfl, -⟩ | ⟨f, hl, hb, rfl, -, hw⟩
  · exact (hp rfl).elim
  · rw [hn, NUM_FRAMES] at hb
    refine ⟨f, by omega, ?_, hl.1, hw⟩
    rw [frameToPhysical_eq (by omega)]
    omega

lemma remaps_iff (hl : Mappable s l) (hv : v < RECURSIVE_ADDR) : Remaps l (pdOf v) (ptOf v) ↔ pageOf v ∈ l.map Prod.fst := by
  rw [RECURSIVE_ADDR] at hv
  have hpage : ∀ q ∈ l, (pdOf v = pdOf q.1 ∧ ptOf v = ptOf q.1) ↔ q.1 = pageOf v := by
    intro q hq
    obtain ⟨ha, hb⟩ := (hl.page q hq).1
    rw [RECURSIVE_ADDR] at hb
    rw [pdOf, pdOf, ptOf, ptOf, u32_eq (by omega), u32_eq (by omega), pageOf]
    omega
  rw [Remaps, List.mem_map]
  exact exists_congr fun q => and_congr_right fun hq => hpage q hq

lemma table_ne (hg : s.Unused32 g) (ht : s.table32 j = some f) : f ≠ g := by
  rintro rfl
  exact hg.not_table () j ht

namespace Midway

lemma unused_write (h : Midway s l used t) (hg : s.Unused32 g) (i v : ℕ) :
    ({ t with phys := t.phys.write32 g i v } : Paging).Recursive32 ∧
      (∀ j, ({ t with phys := t.phys.write32 g i v } : Paging).table32 j = t.table32 j) := by
  have hd : t.cr3 ≠ g := by
    rw [h.cr3]
    exact fun he => hg.not_dir () (congrArg some he)
  have htab : ∀ a j, PageTables.table target ({ t with phys := t.phys.write32 g i v } : Paging).entries32 t.directory32 a j =
      PageTables.table target t.entries32 t.directory32 a j := by
    intro a j
    apply PageTables.table_congr
    intro d hd'
    obtain rfl : t.cr3 = d := Option.some.inj hd'
    rw [Paging.entries32, Paging.entries32]
    exact congrArg (if j < 1024 then · else 0) (congrFun (Phys.write32_frame hd) j)
  exact ⟨h.recursive.of_tables htab, htab ()⟩

lemma write (h : Midway s l used t) {q : ℕ × ℕ} (hq : q ∈ used) (i v : ℕ) :
    Midway s l used { t with phys := t.phys.write32 (q.2 / 4096) i v } := by
  obtain ⟨f, -, hf, hu, hbit⟩ := h.frame q hq
  have hframe : q.2 / 4096 = 256 + f := by omega
  rw [hframe]
  obtain ⟨hs, htab⟩ := h.unused_write hu i v
  have hword : ∀ g k, g ≠ 256 + f → (t.phys.write32 (256 + f) i v) g k = t.phys g k := fun g k hg =>
    congrFun (Phys.write32_frame hg) k
  refine ⟨h.cr3, hs, fun j => (htab j).trans (h.tables j), fun j k g hg hk hr => ?_, fun g k => ?_, h.sized, h.free,
    fun q' hq' => ⟨(h.page q' hq').1, ?_⟩, h.frame, fun g hg hno => ?_⟩
  · exact (hword g k (table_ne hu hg)).trans (h.words j k g hg hk hr)
  · by_cases hg : g = 256 + f
    · subst hg
      by_cases hk : k = i
      · rw [hk]
        exact Phys.write32_self.trans_lt (Nat.mod_lt _ (by norm_num))
      · exact (Phys.write32_word hk).trans_lt (h.bound _ k)
    · exact (hword g k hg).trans_lt (h.bound g k)
  · rw [← (h.page q' hq').2, Paging.pageEntry, Paging.pageEntry, htab, h.tables]
    cases hg : s.table32 (pdOf q'.1) with
    | none => rfl
    | some g => exact hword g _ (table_ne hu hg)
  · refine (Phys.write32_frame ?_).trans (h.others g hg hno)
    rintro rfl
    exact hno q hq hframe

lemma walk_page (h : Midway s l used t) (hl : Mappable s l) {q : ℕ × ℕ} (hq : q ∈ used) (ho : off < 4096) :
    t.walk32 (q.1 + off) = some (q.2 / 4096) := by
  obtain ⟨hmem, he⟩ := h.page q hq
  obtain ⟨⟨ha, hb⟩, f, hf⟩ := hl.page q hmem
  obtain ⟨g, hg, hframe, -⟩ := h.frame q hq
  rw [RECURSIVE_ADDR] at hb
  have hpd : pdOf (q.1 + off) = pdOf q.1 := by
    rw [pdOf, pdOf, u32_eq (by omega), u32_eq (by omega)]
    omega
  have hpt : ptOf (q.1 + off) = ptOf q.1 := by
    rw [ptOf, ptOf, u32_eq (by omega), u32_eq (by omega)]
    omega
  have ht : t.table32 (pdOf q.1) = some f := (h.tables _).trans hf
  rw [Paging.pageEntry_of_table ht] at he
  have hp : Present (q.2 + 3) := by
    rw [Present]
    omega
  have hfr : frameOf (q.2 + 3) = q.2 / 4096 := by
    rw [frameOf]
    omega
  rw [Paging.walk32_eq (by omega), hpd, hpt, Paging.entryAt32_of_table ht (Paging.ptOf_lt _), he, if_pos hp, Option.map_some, hfr]

lemma store_page (h : Midway s l used t) (hl : Mappable s l) {q : ℕ × ℕ} (hq : q ∈ used) (ho : off < 4096) :
    t.store32 (q.1 + off) x = .ok { t with phys := t.phys.write32 (q.2 / 4096) (off / 4) x } := by
  have ha := (hl.page q (h.page q hq).1).1.1
  have hw : (q.1 + off) % 2 ^ 12 / 4 = off / 4 := by omega
  rw [Paging.store32, h.walk_page hl hq ho, hw]

lemma storeWords_page (h : Midway s l used t) (hl : Mappable s l) {q : ℕ × ℕ} (hq : q ∈ used) (hi : i < 512) (x : ℕ) :
    t.storeWords (q.1 + 8 * i) x = .ok { t with phys := t.phys.write64 (q.2 / 4096) i x } ∧
      Midway s l used { t with phys := t.phys.write64 (q.2 / 4096) i x } := by
  have hlow := h.store_page (x := u32 x) hl hq (show 8 * i < 4096 by omega)
  have heven : 8 * i / 4 = 2 * i := by omega
  have hword : t.phys.write32 (q.2 / 4096) (2 * i) (u32 x) = t.phys.write32 (q.2 / 4096) (2 * i) x := by
    rw [Phys.write32, Phys.write32, u32_u32]
  rw [heven, hword] at hlow
  have h₁ := h.write hq (2 * i) x
  have hhigh := h₁.store_page (x := x / 2 ^ 32) hl hq (show 8 * i + 4 < 4096 by omega)
  have hodd : (8 * i + 4) / 4 = 2 * i + 1 := by omega
  rw [hodd, ← Nat.add_assoc] at hhigh
  refine ⟨?_, h₁.write hq (2 * i + 1) (x / 2 ^ 32)⟩
  rw [Paging.storeWords, hlow, ok_bind, hhigh]
  rfl

lemma map (h : Midway s l used t) (hl : Mappable s l) (hb : (b, p) ∈ l) (hfresh : b ∉ used.map Prod.fst)
    (hp : p = 4096 * (256 + f)) (hlt : f < 2 ^ 19) (hclear : t.pmm.bit f = false) (hw : t.pmm.Writes f true pmm) :
    ∃ t', memoryMap { t with pmm := pmm } s.cr3 p b 3 = .ok t' ∧ Midway s l ((b, p) :: used) t' ∧ t'.pmm = pmm ∧
      ∀ g, s.Unused32 g → t'.phys g = t.phys g := by
  obtain ⟨hpage, f', hf'⟩ := hl.page _ hb
  have ht : t.table32 (pdOf b) = some f' := (h.tables _).trans hf'
  have hmap : memoryMap { t with pmm := pmm } t.cr3 p b 3 = .ok ({ t with pmm := pmm }.setWord f' (ptOf b) (u32 p ||| 3)) :=
    Paging.memoryMap_present (s := { t with pmm := pmm }) h.recursive ht (by rw [u32]; omega)
  obtain ⟨hs, htab, -⟩ := Paging.setWord_ok (s := { t with pmm := pmm }) h.recursive hpage.pd_ne ht (ptOf b) (u32 p ||| 3)
  have hentry : u32 (u32 p ||| 3) = p + 3 := by
    have : u32 p ||| 3 = p + 3 := by
      rw [u32_eq (by omega), hp]
      exact (Nat.two_pow_add_eq_or_of_lt (i := 12) (by norm_num) _).symm
    rw [this, u32_eq (by omega)]
  set u := { t with pmm := pmm }.setWord f' (ptOf b) (u32 p ||| 3) with hu
  have hunused : ∀ g, s.Unused32 g → u.phys g = t.phys g := by
    intro g hg
    funext k
    exact Paging.phys_setWord fun he => absurd he.symm (table_ne hg hf')
  refine ⟨u, by rw [← h.cr3]; exact hmap, ⟨h.cr3, hs, fun j => (htab j).trans (h.tables j), ?_, ?_, hw.numFrames.trans h.sized, ?_, ?_, ?_, ?_⟩, rfl, hunused⟩
  · intro j k g hg hk hr
    refine (Paging.phys_setWord ?_).trans (h.words j k g hg hk hr)
    rintro rfl rfl
    have hj : pdOf b = j := (h.recursive.table_frame hpage.pd_ne ht ((h.tables j).trans hg)).2
    exact hr ⟨_, hb, hj.symm, rfl⟩
  · intro g k
    by_cases hg : g = f' ∧ k = ptOf b
    · obtain ⟨rfl, rfl⟩ := hg
      rw [hu, Paging.phys_setWord_self]
      exact Nat.mod_lt _ (by norm_num)
    · have : u.phys g k = t.phys g k := Paging.phys_setWord fun hg' hk => hg ⟨hg', hk⟩
      rw [this]
      exact h.bound g k
  · intro g hg
    apply h.free g
    have hbit : pmm.bit g = false := hg
    rw [hw.bit] at hbit
    split_ifs at hbit
    exact hbit
  · intro q hq
    rcases List.mem_cons.mp hq with rfl | hq
    · exact ⟨hb, (Paging.pageEntry_setWord_self ((htab _).trans ht)).trans hentry⟩
    · obtain ⟨hmem, he⟩ := h.page q hq
      have hne : q.1 ≠ b := fun he => hfresh (he ▸ List.mem_map_of_mem hq)
      exact ⟨hmem, (Paging.pageEntry_setWord (p := { t with pmm := pmm }) h.recursive hpage (hl.page q hmem).1 hne ht).trans he⟩
  · intro q hq
    rcases List.mem_cons.mp hq with rfl | hq
    · exact ⟨f, hlt, hp, h.free f hclear, by rw [show u.pmm.bit f = _ from hw.bit f, if_pos rfl]⟩
    · obtain ⟨g, hg, hgp, hgu, hbit⟩ := h.frame q hq
      refine ⟨g, hg, hgp, hgu, ?_⟩
      rw [show u.pmm.bit g = _ from hw.bit g, hbit, ite_self]
  · intro g hg hno
    exact (hunused g hg).trans (h.others g hg fun q hq => hno q (List.mem_cons_of_mem _ hq))

end Midway

end WordOS.Memory
