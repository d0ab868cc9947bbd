import WordOS.Memory.PdMap
import WordOS.Memory.Vmm

/-! The loop of `vmm_page_alloc` that maps a range of physical memory, with PAE and without. -/

namespace WordOS.Memory

open Machine

namespace Paging

def frameAt (pae : Bool) (s : Paging) (v : ℕ) : Option ℕ := if pae then s.walk64 v else s.walk32 v

def byteAt (pae : Bool) (s : Paging) (v : ℕ) : Option ℕ := (s.frameAt pae v).map fun f => 4096 * f + v % 4096

/-- What the functions that map a page need to find the tables; `memory_map` writes to the directory in use. -/
def Ready (pae : Bool) (rootPd : ℕ) (s : Paging) : Prop := if pae then s.PaeReady else s.PdReady ∧ rootPd = s.cr3

end Paging

/-- The addresses at which the tables themselves are reached. -/
def InWindow (pae : Bool) (v : ℕ) : Prop := if pae then pdIndexOf v = 511 else pdOf v = 1023

/-- `memory_map` takes a physical address of 32 bits. -/
def physArg (pae : Bool) (x : ℕ) : ℕ := if pae then x else u32 x

variable {s t u : Paging} {pae : Bool} {rootPd virt phys flags v w e base i n m b : ℕ}

lemma frameOf_or (ha : phys % 4096 = 0) (hf : flags < 4096) (hp : phys < 2 ^ 52) : frameOf (phys ||| flags) = phys / 4096 := by
  obtain ⟨f, rfl⟩ : ∃ f, phys = 2 ^ 12 * f := ⟨phys / 4096, by omega⟩
  rw [← Nat.two_pow_add_eq_or_of_lt (by omega), frameOf]
  omega

lemma present_or (h : Present flags) : Present (phys ||| flags) := by
  rw [Present, Nat.or_mod_two_eq_one]
  exact .inr h

lemma page_eq_iff32 (hv : v < 2 ^ 32) (hw : w < 2 ^ 32) : w / 4096 = v / 4096 ↔ pdOf w = pdOf v ∧ ptOf w = ptOf v := by
  rw [pdOf, pdOf, ptOf, ptOf, u32_eq hv, u32_eq hw]
  omega

namespace Paging

lemma walk64_of_maps (h : Maps s virt (phys ||| flags) t) (hv : virt < 2 ^ 32) (ha : phys % 4096 = 0) (hp : phys < 2 ^ 52)
    (hf : flags < 4096) (hpres : Present flags) (hw : w < 2 ^ 32) (hpage : w / 4096 = virt / 4096) :
    t.walk64 w = some (phys / 4096) := by
  rw [walk64_eq hw, h.translation_self hv hw hpage, if_pos (present_or hpres), Option.map_some, frameOf_or ha hf hp]

lemma walk64_of_ne (h : Maps s virt e t) (hv : virt < 2 ^ 32) (hw : w < 2 ^ 32) (hpage : w / 4096 ≠ virt / 4096)
    (hwin : pdIndexOf w ≠ 511) : t.walk64 w = s.walk64 w := by
  rw [walk64_eq hw, walk64_eq hw, h.translation_outside hv hw hpage hwin]

lemma walk32_of_maps (h : Maps32 s virt (u32 (u32 phys ||| flags)) t) (hv : virt < 2 ^ 32) (ha : u32 phys % 4096 = 0)
    (hf : flags < 4096) (hpres : Present flags) (hw : w < 2 ^ 32) (hpage : w / 4096 = virt / 4096) :
    t.walk32 w = some (u32 phys / 4096) := by
  obtain ⟨hd, hk⟩ := (page_eq_iff32 hv hw).mp hpage
  obtain ⟨f, ht, he⟩ := h.exists_table
  have hlt : u32 phys < 2 ^ 32 := Nat.mod_lt _ (by norm_num)
  rw [u32_eq (Nat.or_lt_two_pow hlt (hf.trans (by norm_num)))] at he
  rw [walk32_eq hw, hd, hk, entryAt32_of_table ht (ptOf_lt virt), he, if_pos (present_or hpres), Option.map_some,
    frameOf_or ha hf (hlt.trans (by norm_num))]

lemma walk32_of_ne (h : Maps32 s virt e t) (hv : virt < 2 ^ 32) (hw : w < 2 ^ 32) (hpage : w / 4096 ≠ virt / 4096)
    (hwin : pdOf w ≠ 1023) (hsome : (s.walk32 w).isSome) : t.walk32 w = s.walk32 w := by
  have htab : (s.table32 (pdOf w)).isSome := by
    rw [walk32_eq hw, entryAt32, Lib.PageTables.entry] at hsome
    cases ht : s.table32 (pdOf w) with
    | none =>
      rw [table32] at ht
      simp [ht] at hsome
    | some f => rfl
  rw [walk32_eq hw, walk32_eq hw]
  exact congrArg _ (h.others _ _ hwin (ptOf_lt w) (fun hd hk => hpage ((page_eq_iff32 hv hw).mpr ⟨hd, hk⟩)) htab)

end Paging

lemma inWindow_congr (hv : v < 2 ^ 32) (hw : w < 2 ^ 32) (h : w / 4096 = v / 4096) : InWindow pae w ↔ InWindow pae v := by
  cases pae with
  | true =>
    change pdIndexOf w = 511 ↔ pdIndexOf v = 511
    rw [((Paging.page_eq_iff hv hw).mp h).2.1]
  | false =>
    change pdOf w = 1023 ↔ pdOf v = 1023
    rw [((page_eq_iff32 hv hw).mp h).1]

lemma frameAt_congr (hv : v < 2 ^ 32) (hw : w < 2 ^ 32) (h : w / 4096 = v / 4096) : s.frameAt pae w = s.frameAt pae v := by
  cases pae with
  | true =>
    obtain ⟨hi, hj, hk⟩ := (Paging.page_eq_iff hv hw).mp h
    change s.walk64 w = s.walk64 v
    rw [Paging.walk64_eq hw, Paging.walk64_eq hv, Paging.translation_entryAt hw, Paging.translation_entryAt hv, hi, hj, hk]
  | false =>
    obtain ⟨hd, hk⟩ := (page_eq_iff32 hv hw).mp h
    change s.walk32 w = s.walk32 v
    rw [Paging.walk32_eq hw, Paging.walk32_eq hv, hd, hk]

lemma mapPage_ok (hs : s.Ready pae rootPd) (hwin : ¬ InWindow pae virt) (hv : virt < 2 ^ 32) (ha : phys % 4096 = 0)
    (hf : flags < 4096) (hpres : Present flags)
    (hm : (if pae then paeMmap s phys virt flags else memoryMap s rootPd phys virt flags) = .ok t) :
    t.Ready pae rootPd ∧ (∀ w < 2 ^ 32, w / 4096 = virt / 4096 → t.frameAt pae w = some (physArg pae phys / 4096)) ∧
      ∀ w < 2 ^ 32, w / 4096 ≠ virt / 4096 → ¬ InWindow pae w → pae = true ∨ (s.frameAt pae w).isSome →
        t.frameAt pae w = s.frameAt pae w := by
  cases pae with
  | true =>
    obtain ⟨ht, hmaps, hp, -⟩ := Paging.PaeReady.paeMmap hs hwin hf hm
    exact ⟨ht, fun w hw hpage => Paging.walk64_of_maps hmaps hv ha hp hf hpres hw hpage,
      fun w hw hpage hww _ => Paging.walk64_of_ne hmaps hv hw hpage hww⟩
  | false =>
    obtain ⟨hs, hroot⟩ := hs
    rw [if_neg Bool.false_ne_true, hroot] at hm
    obtain ⟨ht, hmaps⟩ := Paging.PdReady.memoryMap hs hwin hm
    have ha' : u32 phys % 4096 = 0 := by
      rw [u32]
      omega
    exact ⟨⟨ht, hroot.trans hmaps.cr3.symm⟩, fun w hw hpage => Paging.walk32_of_maps hmaps hv ha' hf hpres hw hpage,
      fun w hw hpage hww hsome => Paging.walk32_of_ne hmaps hv hw hpage hww (hsome.resolve_left Bool.false_ne_true)⟩

def pageAt (base m : ℕ) : ℕ := (base / 4096 + m) % 2 ^ 20

lemma page_u32 (base m : ℕ) : u32 (base + 4096 * m) / 4096 = pageAt base m := by
  rw [u32, pageAt]
  omega

lemma mapPages_ok (hphys : phys ≠ 0) (hs : s.Ready pae rootPd) (hf : flags < 4096) (hpres : Present flags) (hn : m + n ≤ 2 ^ 20)
    (hwin : ∀ k < m + n, ¬ InWindow pae (u32 (base + 4096 * k)))
    (hm : mapPages rootPd base phys flags pae n (4096 * m) s = .ok t) :
    (∀ k, m ≤ k → k < m + n → ∀ w < 2 ^ 32, w / 4096 = pageAt base k →
      t.frameAt pae w = some (physArg pae (pageOf phys + 4096 * k) / 4096)) ∧
    ∀ w < 2 ^ 32, (∀ k, m ≤ k → k < m + n → w / 4096 ≠ pageAt base k) → ¬ InWindow pae w →
      pae = true ∨ (s.frameAt pae w).isSome → t.frameAt pae w = s.frameAt pae w := by
  induction n generalizing s m with
  | zero =>
    obtain rfl := Except.ok.inj hm
    exact ⟨fun k h h' => absurd h' (by omega), fun _ _ _ _ _ => rfl⟩
  | succ n ih =>
    rw [mapPages] at hm
    simp only [if_neg hphys, pure_eq, ok_bind] at hm
    obtain ⟨u, hu, hm⟩ := ite_bind_eq_ok hm
    have hv : u32 (base + 4096 * m) < 2 ^ 32 := Nat.mod_lt _ (by norm_num)
    have ha : (pageOf phys + 4096 * m) % 4096 = 0 := by
      rw [pageOf]
      omega
    obtain ⟨hu', hself, hother⟩ := mapPage_ok hs (hwin m (by omega)) hv ha hf hpres hu
    rw [page_u32] at hself hother
    have hnext : 4096 * m + 4096 = 4096 * (m + 1) := by omega
    rw [hnext] at hm
    obtain ⟨hin, hout⟩ := ih hu' (by omega) (fun k hk => hwin k (by omega)) hm
    refine ⟨fun k hmk hk w hw hpage => ?_, fun w hw hne hww hsome => ?_⟩
    · rcases Nat.eq_or_lt_of_le hmk with rfl | hmk
      · -- the page just mapped is not mapped again
        have hwm := hself w hw hpage
        refine (hout w hw (fun k hk hkn => ?_) ?_ (.inr (by simp [hwm]))).trans hwm
        · rw [hpage, pageAt, pageAt]
          omega
        · exact (inWindow_congr hv hw (hpage.trans (page_u32 base m).symm)).not.mpr (hwin m (by omega))
      · exact hin k hmk (by omega) w hw hpage
    · have hfirst := hother w hw (hne m le_rfl (by omega)) hww hsome
      refine (hout w hw (fun k hk hkn => hne k (by omega) (by omega)) hww ?_).trans hfirst
      rw [hfirst]
      exact hsome

end WordOS.Memory
