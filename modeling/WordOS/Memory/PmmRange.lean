import WordOS.Memory.PmmRuns

/-! The range of frames that allocation and release agree on. -/

namespace WordOS.Memory.PmmRuns

open Machine Lib.Runs

/-- Every live page lies below `num_frames`, and its release makes its frame clear. -/
def Agrees (s : Owners) : Prop :=
  ∀ p ∈ s.live, physicalToFrame p < s.pmm.numFrames ∧
    ∃ t, clearFrame s.pmm (physicalToFrame p) = .ok t ∧ t.bit (physicalToFrame p) = false

/-- Steps that allocate only while some frame below `num_frames` is clear. -/
def RangeStep (s : Owners) (op : Op) (t : Owners) : Prop :=
  Step s op t ∧ (op = .alloc → ∃ f < s.pmm.numFrames, s.pmm.bit f = false)

/-- The live pages lie below `num_frames`. -/
structure Ranged (s : Owners) : Prop where
  owned : Owned s
  below : ∀ p ∈ s.live, physicalToFrame p < NUM_FRAMES

lemma Ranged.agrees {s : Owners} (h : Ranged s) : Agrees s := by
  intro p hp
  have hlt := h.below p hp
  obtain ⟨t, ht, _, hb⟩ := h.owned.clear (physicalToFrame p)
  exact ⟨by rwa [h.owned.sized], t, ht, by rw [hb, if_pos ⟨rfl, hlt.le⟩]⟩

lemma Ranged.step {s t : Owners} {op : Op} (h : Ranged s) (hs : RangeStep s op t) : Ranged t := by
  obtain ⟨hs, hc⟩ := hs
  refine ⟨h.owned.step hs, ?_⟩
  cases hs with
  | alloc ha =>
    obtain ⟨f, hl, rfl, _, hu, _⟩ := h.owned.alloc ha
    obtain ⟨g, hg, hgb⟩ := hc rfl
    have hfg : f ≤ g := by
      by_contra hlt
      simp [hl.2 g (by omega)] at hgb
    intro p hp
    rcases List.mem_cons.mp hp with rfl | hp
    · rw [lastFrame] at hu
      rw [physicalToFrame_frameToPhysical (by omega), ← h.owned.sized]
      omega
    · exact h.below p hp
  | free _ _ =>
    intro p hp
    exact h.below p (List.mem_of_mem_erase hp)

theorem run_agrees {memory : ℕ → BitVec 32} {s₀ : Pmm} {ops : List Op} {s : Owners}
    (h₀ : kinit memory = .ok s₀) (h : Run RangeStep ⟨s₀, []⟩ ops s) : Agrees s := by
  obtain ⟨t, ht, ho, _⟩ := kinit_ok memory
  obtain rfl := Except.ok.inj (ht.symm.trans h₀)
  have hr : Ranged ⟨t, []⟩ := ⟨ho, by simp⟩
  exact (h.invariant (fun _ _ _ (hi : Ranged _) hs => hi.step hs) hr).agrees

/-- The state after `n` allocations from `kinit` on. -/
structure Filled (s : Owners) (n : ℕ) : Prop where
  owned : Owned s
  bit : ∀ f, 4 * (f / 32) + 4 ≤ NUM_FRAMES → s.pmm.bit f = decide (f < 48 + n)
  last : n = 0 ∨ frameToPhysical (47 + n) ∈ s.live

lemma Filled.alloc {s : Owners} {n : ℕ} (h : Filled s n) (hn : 48 + n ≤ lastFrame) :
    ∃ p t, allocPhysPage s.pmm = .ok (p, t) ∧ Filled ⟨t, p :: s.live⟩ (n + 1) := by
  have hd : 48 + n ≤ 3840 := hn
  have hl : s.pmm.Lowest (48 + n) := by
    refine ⟨?_, fun g hg => ?_⟩
    · rw [h.bit _ (by rw [NUM_FRAMES]; omega)]
      simp
    · rw [h.bit g (by rw [NUM_FRAMES]; omega)]
      simpa using hg
  obtain ⟨t, hw, he⟩ := allocPhysPage_lowest hl (by rw [h.owned.sized, NUM_FRAMES]; omega)
  rw [if_neg (by rw [frameToPhysical_eq (by omega)]; omega)] at he
  refine ⟨_, t, he, h.owned.step_alloc he, fun f hf => ?_, .inr ?_⟩
  · rw [hw.bit, h.bit f hf]
    split_ifs with hfn
    · simp [hfn]
    · congr 1
      simp only [eq_iff_iff]
      omega
  · rw [show 47 + (n + 1) = 48 + n by omega]
    simp

lemma exists_filled {s₀ : Pmm} (h : Filled ⟨s₀, []⟩ 0) {n : ℕ} (hn : 47 + n ≤ lastFrame) :
    ∃ s, Run Step ⟨s₀, []⟩ (List.replicate n .alloc) s ∧ Filled s n := by
  induction n with
  | zero => exact ⟨_, .nil _, h⟩
  | succ n ih =>
    obtain ⟨s, hs, hf⟩ := ih (by omega)
    obtain ⟨p, t, ha, ht⟩ := hf.alloc (by omega)
    exact ⟨_, List.replicate_succ' ▸ hs.snoc (.alloc ha), ht⟩

lemma kinit_filled (memory : ℕ → BitVec 32) : ∃ t, kinit memory = .ok t ∧ Filled ⟨t, []⟩ 0 := by
  obtain ⟨t, ht, ho, hb⟩ := kinit_ok memory
  exact ⟨t, ht, ho, hb, .inl rfl⟩

theorem run_agrees_one : ∃ s₀ s, kinit (fun _ => 0#32) = .ok s₀ ∧ Run RangeStep ⟨s₀, []⟩ [.alloc] s ∧ Agrees s := by
  obtain ⟨s₀, h₀, hf⟩ := kinit_filled (fun _ => 0#32)
  obtain ⟨p, t, ha, _⟩ := hf.alloc (by decide)
  have hc : ∃ f < s₀.numFrames, s₀.bit f = false := by
    refine ⟨48, ?_, hf.bit 48 (by decide)⟩
    rw [show s₀.numFrames = NUM_FRAMES from hf.owned.sized]
    decide
  have hr : Run RangeStep ⟨s₀, []⟩ [.alloc] ⟨t, [p]⟩ := .single ⟨.alloc ha, fun _ => hc⟩
  exact ⟨s₀, _, h₀, hr, run_agrees h₀ hr⟩

/-- The 2514th page lies past `num_frames`, and its release leaves its frame taken. -/
theorem run_not_agrees : ∃ s₀ s, kinit (fun _ => 0#32) = .ok s₀ ∧
    Run Step ⟨s₀, []⟩ (List.replicate 2514 .alloc) s ∧ ∃ p ∈ s.live, s.pmm.numFrames < physicalToFrame p ∧
      ∀ t, clearFrame s.pmm (physicalToFrame p) = .ok t → t.bit (physicalToFrame p) = true := by
  obtain ⟨s₀, h₀, hf⟩ := kinit_filled (fun _ => 0#32)
  obtain ⟨s, hs, hfs⟩ := exists_filled hf (n := 2514) (by decide)
  have hp : physicalToFrame (frameToPhysical 2561) = 2561 := physicalToFrame_frameToPhysical (by decide)
  have hlt : s.pmm.numFrames < 2561 := by
    rw [hfs.owned.sized]
    decide
  refine ⟨s₀, s, h₀, hs, frameToPhysical 2561, hfs.last.resolve_left (by decide), by rwa [hp], fun t ht => ?_⟩
  rw [hp, clearFrame_beyond hlt] at ht
  obtain rfl := Except.ok.inj ht
  rw [hp, hfs.bit 2561 (by decide)]
  decide

end WordOS.Memory.PmmRuns
