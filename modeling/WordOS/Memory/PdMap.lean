import WordOS.Memory.TableFrames

/-! `memory_map` changes one entry of one table, which it makes first where there is none. -/

namespace WordOS.Memory

open Machine Lib

namespace Paging

variable {s t u : Paging} {pmm : Pmm} {virt phys flags v w x e f g j k n j' k' : ℕ}

/-- What `memory_map` needs to find the page tables. -/
structure PdReady (s : Paging) : Prop where
  recursive : s.Recursive32
  spare : Spare s.Unused32 s.pmm

/-- What `memory_map` leaves: the page has its entry, and in the tables there were nothing else has changed. -/
structure Maps32 (s : Paging) (virt e : ℕ) (t : Paging) : Prop where
  cr3 : t.cr3 = s.cr3
  exists_table : ∃ f, t.table32 (pdOf virt) = some f ∧ t.phys f (ptOf virt) = e
  others : ∀ j k, j ≠ 1023 → k < 1024 → (j = pdOf virt → k ≠ ptOf virt) → (s.table32 j).isSome → t.entryAt32 j k = s.entryAt32 j k

lemma clear32_window (hs : s.Recursive32) (hj : j ≠ 1023) (ht : s.table32 j = some f) (hn : k + n ≤ 1024) :
    ∃ m, s.clear32 (RECURSIVE_ADDR + j * 4096 + 4 * k) n = .ok { s with phys := m } ∧
      ∀ f' k', f' ≠ f → ({ s with phys := m } : Paging).entries32 f' k' = s.entries32 f' k' := by
  induction n generalizing s k with
  | zero => exact ⟨s.phys, rfl, fun _ _ _ => rfl⟩
  | succ n ih =>
    obtain ⟨hs', ht', -⟩ := setWord_ok hs hj ht k 0
    obtain ⟨m, hm, hout⟩ := ih hs' ((ht' j).trans ht) (show k + 1 + n ≤ 1024 by omega)
    refine ⟨m, ?_, fun f' k' hne => (hout f' k' hne).trans (entries32_setWord fun hf => absurd hf hne)⟩
    rw [clear32, store32_window hs ht (by omega), ok_bind]
    exact hm

lemma target_or_three32 (hf : f < 2 ^ 20) : target (u32 (u32 (4096 * f) ||| 3)) = some f := by
  have h : 4096 * f ||| 3 = 4096 * f + 3 := (Nat.two_pow_add_eq_or_of_lt (i := 12) (by norm_num) f).symm
  rw [u32_eq (show 4096 * f < 2 ^ 32 by omega), h, u32_eq (by omega), target_of_present (show (4096 * f + 3) % 2 = 1 by omega), frameOf]
  exact congrArg some (by omega)

lemma createNewPt_ready (h : s.PdReady) (hj : j < 1023) (hnone : s.table32 j = none)
    (hc : createNewPt s s.cr3 j RECURSIVE_ADDR = .ok t) :
    t.PdReady ∧ t.cr3 = s.cr3 ∧ (∃ f, t.table32 j = some f) ∧
      ∀ j' k', j' ≠ 1023 → (s.table32 j').isSome → t.table32 j' = s.table32 j' ∧ t.entryAt32 j' k' = s.entryAt32 j' k' := by
  obtain ⟨⟨p, pmm⟩, ha, hc⟩ := bind_eq_ok.mp hc
  obtain ⟨f, hf, ⟨hb, -⟩, rfl, hw, hroom⟩ := allocPhysPage_low h.spare.headroom ha
  have hu := h.spare.unused f hf hb
  have hd : s.directory32 () = some s.cr3 := rfl
  have hj' : j ≠ 1023 := by omega
  set s₁ := { s with pmm := pmm }.setWord s.cr3 j (u32 (4096 * (256 + f)) ||| 3) with hs₁
  have hm₁ : ∀ f' j', f' ≠ 256 + f → (f' = s.cr3 → j' ≠ j) → s₁.entries32 f' j' = s.entries32 f' j' := fun f' j' _ h => entries32_setWord h
  have he₁ : target (s₁.entries32 s.cr3 j) = some (256 + f) := by
    rw [entries32, if_pos (by omega), hs₁, phys_setWord_self]
    exact target_or_three32 (by omega)
  have hs' : s₁.Recursive32 := h.recursive.install hj' hd hu he₁ hm₁
  obtain ⟨ht', -⟩ := h.recursive.table_of_install hd hu he₁ hm₁
  have hwin := window32 (show j < 1024 by omega)
  obtain ⟨m, hm, hout⟩ := clear32_window hs' hj' ht' (show 0 + 256 ≤ 1024 by norm_num)
  rw [Nat.mul_zero, Nat.add_zero, ← hwin] at hm
  obtain rfl := Except.ok.inj (hm.symm.trans hc)
  have hne : s.cr3 ≠ 256 + f := fun h => hu.not_dir () (congrArg some h)
  have hm₂ : ∀ f' j', f' ≠ 256 + f → (f' = s.cr3 → j' ≠ j) → ({ s₁ with phys := m } : Paging).entries32 f' j' = s.entries32 f' j' :=
    fun f' j' hf' h => (hout f' j' hf').trans (hm₁ f' j' hf' h)
  have he₂ : target (({ s₁ with phys := m } : Paging).entries32 s.cr3 j) = some (256 + f) := by
    rw [hout s.cr3 j hne]
    exact he₁
  obtain ⟨hnew, hold⟩ := h.recursive.table_of_install hd hu he₂ hm₂
  refine ⟨⟨h.recursive.install hj' hd hu he₂ hm₂, hroom, fun g hg hgb => ?_⟩, rfl, ⟨_, hnew⟩, fun j' k' hj₁ hsome => ?_⟩
  · rw [show ({ s₁ with phys := m } : Paging).pmm = pmm from rfl, hw.bit] at hgb
    split_ifs at hgb with hgf
    have hug := h.spare.unused g hg hgb
    refine ⟨hug.not_dir, fun i j₁ he => ?_⟩
    by_cases hj₁ : j₁ = j
    · subst hj₁
      have := Option.some.inj (he.symm.trans hnew)
      omega
    · exact hug.not_table i j₁ ((hold i j₁ fun _ => hj₁).symm.trans he)
  · have hj₂ : j' ≠ j := by
      rintro rfl
      rw [hnone] at hsome
      cases hsome
    have htab := hold () j' fun _ => hj₂
    refine ⟨htab, PageTables.entry_congr htab fun t ht => hm₂ t k' ?_ ?_⟩
    · rintro rfl
      exact hu.not_table () j' ht
    · rintro rfl
      exact absurd rfl (h.recursive.table_ne_dir () j' s.cr3 () hj₁ ht)

lemma PdReady.memoryMap (h : s.PdReady) (hj : pdOf virt ≠ 1023) (hm : memoryMap s s.cr3 phys virt flags = .ok t) :
    t.PdReady ∧ Maps32 s virt (u32 (u32 phys ||| flags)) t := by
  have hlt := pdOf_lt virt
  have hentry : ∀ {s' : Paging} {f : ℕ}, s'.PdReady → s'.table32 (pdOf virt) = some f →
      s'.store32 (RECURSIVE_ADDR + pdOf virt * 4096 + 4 * ptOf virt) (u32 phys ||| flags) = .ok t →
      t.PdReady ∧ Maps32 s' virt (u32 (u32 phys ||| flags)) t := by
    intro s' f h' ht hst
    rw [store32_window h'.recursive ht (ptOf_lt virt)] at hst
    obtain rfl := Except.ok.inj hst
    obtain ⟨hr, htab, ho⟩ := setWord_ok h'.recursive hj ht (ptOf virt) (u32 phys ||| flags)
    refine ⟨⟨hr, h'.spare.headroom, fun g hg hgb => ?_⟩, rfl, ⟨f, (htab _).trans ht, phys_setWord_self⟩, fun j k _ _ hne _ => ho j k hne⟩
    have hug := h'.spare.unused g hg hgb
    exact ⟨hug.not_dir, fun _ j he => hug.not_table () j ((htab j).symm.trans he)⟩
  rw [Memory.memoryMap] at hm
  dsimp only at hm
  by_cases halign : u32 phys % 2 ^ 10 ≠ 0
  · simp only [if_pos halign] at hm
    split_ifs at hm
    · cases hm
    · obtain ⟨s₁, -, hm⟩ := bind_eq_ok.mp hm
      cases hm
  simp only [if_neg halign] at hm
  by_cases hp : Present (s.phys s.cr3 (u32 virt / 2 ^ 22))
  · rw [if_pos hp, ok_bind] at hm
    exact hentry h ((table32_eq hlt).trans (target_of_present hp)) hm
  · rw [if_neg hp] at hm
    obtain ⟨s₁, hc, hm⟩ := bind_eq_ok.mp hm
    have hnone : s.table32 (pdOf virt) = none := (table32_eq hlt).trans (target_of_not_present hp)
    obtain ⟨h₁, hcr, ⟨f, hf⟩, ho⟩ := createNewPt_ready h (by omega) hnone hc
    obtain ⟨hr, hmaps⟩ := hentry h₁ hf hm
    refine ⟨hr, hmaps.cr3.trans hcr, hmaps.exists_table, fun j k hj' hk hne hsome => ?_⟩
    obtain ⟨htab, he⟩ := ho j k hj' hsome
    exact (hmaps.others j k hj' hk hne (htab ▸ hsome)).trans he

end Paging

end WordOS.Memory
