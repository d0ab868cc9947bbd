import WordOS.Lib.Bitmap
import WordOS.Memory.Pmm

/-! What each function of `pmm.c` does to the bits of the bitmap. -/

namespace WordOS.Memory

open Machine Lib.Bitmap

def Pmm.Lowest (s : Pmm) (f : ℕ) : Prop := s.bit f = false ∧ ∀ g < f, s.bit g = true

lemma Pmm.Lowest.unique {s : Pmm} {f g : ℕ} (hf : s.Lowest f) (hg : s.Lowest g) : f = g := by
  rcases lt_trichotomy f g with h | h | h
  · exact absurd hf.1 (by simp [hg.2 f h])
  · exact h
  · exact absurd hg.1 (by simp [hf.2 g h])

lemma Pmm.exists_lowest {s : Pmm} {f : ℕ} (h : s.bit f = false) : ∃ g ≤ f, s.Lowest g := by
  have he : ∃ g, s.bit g = false := ⟨f, h⟩
  exact ⟨Nat.find he, Nat.find_min' he h, Nat.find_spec he, fun g hg => by simpa using Nat.find_min he hg⟩

lemma scanWord_some {w : BitVec 32} {j n k : ℕ} (hn : j + n ≤ 32) (h : scanWord w j n = some k) :
    j ≤ k ∧ k < j + n ∧ w.getLsbD k = false ∧ ∀ i, j ≤ i → i < k → w.getLsbD i = true := by
  induction n generalizing j with
  | zero => simp [scanWord] at h
  | succ n ih =>
    have hm := and_mask_eq_zero (w := w) (show j < 32 by omega)
    rw [scanWord] at h
    split at h
    · rename_i hj
      obtain rfl := Option.some.inj h
      exact ⟨le_rfl, by omega, hm.mp hj, by omega⟩
    · rename_i hj
      obtain ⟨hjk, hk, hc, hs⟩ := ih (by omega) h
      refine ⟨by omega, by omega, hc, ?_⟩
      intro i hi hik
      rcases Nat.eq_or_lt_of_le hi with rfl | hi
      · simpa using hj ∘ hm.mpr
      · exact hs i hi hik

lemma scanWord_none {w : BitVec 32} {j n : ℕ} (hn : j + n ≤ 32) (h : scanWord w j n = none) :
    ∀ i, j ≤ i → i < j + n → w.getLsbD i = true := by
  induction n generalizing j with
  | zero => omega
  | succ n ih =>
    have hm := and_mask_eq_zero (w := w) (show j < 32 by omega)
    rw [scanWord] at h
    split at h
    · simp at h
    · rename_i hj
      intro i hi hin
      rcases Nat.eq_or_lt_of_le hi with rfl | hi
      · simpa using hj ∘ hm.mpr
      · exact ih (by omega) h i hi (by omega)


lemma full_word : 0xffffffff#32 = BitVec.allOnes 32 := by decide

lemma full_word_bit {k : ℕ} (hk : k < 32) : (0xffffffff#32).getLsbD k = true := by
  rw [full_word, BitVec.getLsbD_allOnes, decide_eq_true hk]

lemma scanFrames_some {s : Pmm} {i n f : ℕ} (h : scanFrames s i n = .ok (some f)) :
    32 * i ≤ f ∧ f / 32 < i + n ∧ 4 * (f / 32) + 4 ≤ s.numFrames ∧ s.bit f = false ∧
      ∀ g, 32 * i ≤ g → g < f → s.bit g = true := by
  induction n generalizing i with
  | zero => simp [scanFrames] at h
  | succ n ih =>
    by_cases hi : 4 * i + 4 ≤ s.numFrames
    · have skip (hw : ∀ k < 32, (s.frames i).getLsbD k = true)
          (h : scanFrames s (i + 1) n = .ok (some f)) :
          32 * i ≤ f ∧ f / 32 < i + (n + 1) ∧ 4 * (f / 32) + 4 ≤ s.numFrames ∧ s.bit f = false ∧
            ∀ g, 32 * i ≤ g → g < f → s.bit g = true := by
        obtain ⟨hl, hu, hb, hc, hs⟩ := ih h
        refine ⟨by omega, by omega, hb, hc, ?_⟩
        intro g hg hgf
        by_cases hw' : g / 32 = i
        · rw [Pmm.bit, hw']
          exact hw _ (by omega)
        · exact hs g (by omega) hgf
      rw [scanFrames, Pmm.readWord, if_pos hi] at h
      by_cases hw : s.frames i = 0xffffffff#32
      · exact skip (fun k hk => hw ▸ full_word_bit hk) (by simpa [hw] using h)
      · cases hs : scanWord (s.frames i) 0 32 with
        | none =>
          exact skip (fun k hk => scanWord_none (by omega) hs k (by omega) (by omega))
            (by simpa [hw, hs] using h)
        | some j =>
          obtain ⟨_, hj, hc, hl⟩ := scanWord_some (by omega) hs
          have he : i * 32 + j = f := by simpa [hw, hs] using h
          subst he
          have hd : (i * 32 + j) / 32 = i := by omega
          have hm : (i * 32 + j) % 32 = j := by omega
          refine ⟨by omega, by omega, by omega, by rwa [Pmm.bit, hd, hm], ?_⟩
          intro g hg hgf
          rw [Pmm.bit, show g / 32 = i by omega]
          exact hl _ (by omega) (by omega)
    · simp [scanFrames, Pmm.readWord, hi] at h

lemma scanFrames_lowest {s : Pmm} {i n f : ℕ} (hif : 32 * i ≤ f) (hn : f / 32 < i + n)
    (hb : 4 * (f / 32) + 4 ≤ s.numFrames) (hc : s.bit f = false)
    (hs : ∀ g, 32 * i ≤ g → g < f → s.bit g = true) : scanFrames s i n = .ok (some f) := by
  induction n generalizing i with
  | zero => omega
  | succ n ih =>
    have hi : 4 * i + 4 ≤ s.numFrames := by omega
    have word (k : ℕ) (hk : k < 32) (hkf : 32 * i + k < f) : (s.frames i).getLsbD k = true := by
      have := hs (32 * i + k) (by omega) hkf
      rwa [Pmm.bit, show (32 * i + k) / 32 = i by omega, show (32 * i + k) % 32 = k by omega] at this
    rw [scanFrames, Pmm.readWord, if_pos hi]
    by_cases he : f / 32 = i
    · rw [Pmm.bit, he] at hc
      have hw : s.frames i ≠ 0xffffffff#32 := by
        intro hw
        rw [hw, full_word_bit (by omega)] at hc
        contradiction
      cases hs' : scanWord (s.frames i) 0 32 with
      | none =>
        have := scanWord_none (by omega) hs' (f % 32) (by omega) (by omega)
        simp [this] at hc
      | some j =>
        obtain ⟨_, hj, hcj, hl⟩ := scanWord_some (by omega) hs'
        have hjf : j = f % 32 := by
          rcases lt_trichotomy j (f % 32) with h | h | h
          · simp [word j hj (by omega)] at hcj
          · exact h
          · simp [hl _ (by omega) h] at hc
        simp [hw, hs']
        omega
    · have hw : s.frames i = 0xffffffff#32 := by
        rw [full_word, eq_allOnes fun k hk => word k hk (by omega)]
      simpa [hw] using
        ih (by omega) (by omega) (fun g hg hgf => hs g (by omega) hgf)

lemma getFirstFrame_some {s : Pmm} {f : ℕ} (h : getFirstFrame s = .ok (some f)) :
    s.Lowest f ∧ 4 * (f / 32) + 4 ≤ s.numFrames := by
  obtain ⟨_, _, hb, hc, hs⟩ := scanFrames_some h
  exact ⟨⟨hc, fun g hg => hs g (by omega) hg⟩, hb⟩

lemma getFirstFrame_lowest {s : Pmm} {f : ℕ} (h : s.Lowest f) (hn : f / 32 < s.numFrames)
    (hb : 4 * (f / 32) + 4 ≤ s.numFrames) : getFirstFrame s = .ok (some f) :=
  scanFrames_lowest (by omega) (by omega) hb h.1 (fun g _ hg => h.2 g hg)

/-- The state in which the bit of frame `f` alone is rewritten to `b`. -/
structure Pmm.Writes (s : Pmm) (f : ℕ) (b : Bool) (t : Pmm) : Prop where
  numFrames : t.numFrames = s.numFrames
  bit : ∀ g, t.bit g = if g = f then b else s.bit g

lemma bit_setWord (s : Pmm) (i : ℕ) (w : BitVec 32) (g : ℕ) :
    (s.setWord i w).bit g = if g / 32 = i then w.getLsbD (g % 32) else s.bit g := by
  by_cases h : g / 32 = i
  · subst h
    simp [Pmm.bit, Pmm.setWord]
  · simp [Pmm.bit, Pmm.setWord, h]

/-- A word that differs in one bit. -/
lemma writes_setWord {s : Pmm} {f : ℕ} {b : Bool} {w : BitVec 32}
    (h : ∀ j < 32, w.getLsbD j = if j = f % 32 then b else (s.frames (f / 32)).getLsbD j) :
    s.Writes f b (s.setWord (f / 32) w) := by
  refine ⟨rfl, fun g => ?_⟩
  rw [bit_setWord]
  by_cases hg : g / 32 = f / 32
  · rw [if_pos hg, h _ (Nat.mod_lt _ (by decide))]
    by_cases hm : g % 32 = f % 32
    · rw [if_pos hm, if_pos (by omega)]
    · rw [if_neg hm, if_neg (by omega), Pmm.bit, hg]
  · rw [if_neg hg, if_neg (by omega)]

lemma setFrame_ok {s : Pmm} {f : ℕ} (hb : 4 * (f / 32) + 4 ≤ s.numFrames) :
    ∃ t, setFrame s f = .ok t ∧ s.Writes f true t := by
  have he : setFrame s f =
      .ok (s.setWord (f / 32) (s.frames (f / 32) ||| (1#32 <<< (f % 32)))) := by
    simp only [setFrame, Pmm.readWord, Pmm.writeWord, if_pos hb, ok_bind]
  refine ⟨_, he, writes_setWord fun j hj => ?_⟩
  rw [getLsbD_or_mask hj]
  by_cases hm : j = f % 32
  · simp [hm]
  · simp [hm]

lemma clearFrame_ok {s : Pmm} {f : ℕ} (hf : f ≤ s.numFrames) (hb : 4 * (f / 32) + 4 ≤ s.numFrames) :
    ∃ t, clearFrame s f = .ok t ∧ s.Writes f false t := by
  have he : clearFrame s f =
      .ok (s.setWord (f / 32) (s.frames (f / 32) &&& ~~~(1#32 <<< (f % 32)))) := by
    simp only [clearFrame, if_neg (show ¬ f > s.numFrames by omega), Pmm.readWord,
      Pmm.writeWord, if_pos hb, ok_bind]
  refine ⟨_, he, writes_setWord fun j hj => ?_⟩
  rw [getLsbD_and_not_mask hj]
  by_cases hm : j = f % 32
  · simp [hm]
  · simp [hm]

/-- Frames past `num_frames` are out of reach of `clear_frame`. -/
lemma clearFrame_beyond {s : Pmm} {f : ℕ} (hf : s.numFrames < f) : clearFrame s f = .ok s := by
  rw [clearFrame, if_pos hf]
  rfl

lemma clearFrame_total {s : Pmm} (h : 4 ≤ s.numFrames) (f : ℕ) :
    ∃ t, clearFrame s f = .ok t ∧ t.numFrames = s.numFrames := by
  by_cases hf : f ≤ s.numFrames
  · obtain ⟨t, ht, hw⟩ := clearFrame_ok hf (by omega)
    exact ⟨t, ht, hw.numFrames⟩
  · exact ⟨s, clearFrame_beyond (by omega), rfl⟩

lemma frameToPhysical_eq {f : ℕ} (h : f < 0xfff00) : frameToPhysical f = 0x100000 + f * 4096 :=
  u32_eq (by omega)

lemma physicalToFrame_frameToPhysical {f : ℕ} (h : f < 0xfff00) :
    physicalToFrame (frameToPhysical f) = f := by
  rw [frameToPhysical_eq h, physicalToFrame, u32]
  omega

lemma allocPhysPage_ok {s t : Pmm} {p : ℕ} (h : allocPhysPage s = .ok (p, t)) :
    getFirstFrame s = .ok none ∧ p = 0 ∧ t = s ∨
      ∃ f, s.Lowest f ∧ 4 * (f / 32) + 4 ≤ s.numFrames ∧ p = frameToPhysical f ∧
        frameToPhysical f ≤ 0x1000000 ∧ s.Writes f true t := by
  rw [allocPhysPage, bind_eq_ok] at h
  obtain ⟨_ | f, hf, h⟩ := h
  · simp only [pure_eq, Except.ok.injEq, Prod.mk.injEq] at h
    exact .inl ⟨hf, h.1.symm, h.2.symm⟩
  · obtain ⟨hl, hb⟩ := getFirstFrame_some hf
    obtain ⟨u, hu, hw⟩ := setFrame_ok hb
    simp only [hu, ok_bind] at h
    split at h
    · simp at h
    · simp only [pure_eq, Except.ok.injEq, Prod.mk.injEq] at h
      obtain ⟨rfl, rfl⟩ := h
      exact .inr ⟨f, hl, hb, rfl, by omega, hw⟩

lemma allocPhysPage_page {s t : Pmm} {p : ℕ} (h : allocPhysPage s = .ok (p, t)) :
    t.numFrames = s.numFrames ∧ ∃ f < 2 ^ 20, p = 4096 * f := by
  rcases allocPhysPage_ok h with ⟨-, rfl, rfl⟩ | ⟨f, -, -, rfl, -, hw⟩
  · exact ⟨rfl, 0, by norm_num, rfl⟩
  · refine ⟨hw.numFrames, frameToPhysical f / 4096, ?_, ?_⟩
    all_goals
      rw [frameToPhysical, u32]
      omega

lemma allocPhysPage_lowest {s : Pmm} {f : ℕ} (hl : s.Lowest f) (hb : 4 * (f / 32) + 4 ≤ s.numFrames) :
    ∃ t, s.Writes f true t ∧ allocPhysPage s =
      if frameToPhysical f > 0x1000000 then .error (.panic "Out of memory!")
      else .ok (frameToPhysical f, t) := by
  obtain ⟨t, ht, hw⟩ := setFrame_ok hb
  refine ⟨t, hw, ?_⟩
  rw [allocPhysPage, getFirstFrame_lowest hl (by omega) hb]
  simp only [ok_bind, ht]
  split <;> simp

end WordOS.Memory
