import WordOS.Lib.Runs
import WordOS.Memory.PmmBitmap

/-! Frame ownership over runs of allocations and releases, from the bitmap `kinit` leaves. -/

namespace WordOS.Memory.PmmRuns

open Machine Lib.Runs

/-- The allocator together with the frames handed out and not released since, by address. -/
structure Owners where
  pmm : Pmm
  live : List ℕ

inductive Op
  | alloc
  | free (p : ℕ)

inductive Step : Owners → Op → Owners → Prop
  | alloc {s p t} : allocPhysPage s.pmm = .ok (p, t) → Step s .alloc ⟨t, p :: s.live⟩
  | free {s p t} : p ∈ s.live → clearFrame s.pmm (physicalToFrame p) = .ok t →
      Step s (.free p) ⟨t, s.live.erase p⟩

def lastFrame : ℕ := 3840

structure Owned (s : Owners) : Prop where
  sized : s.pmm.numFrames = NUM_FRAMES
  reserved : ∀ f < 48, s.pmm.bit f = true
  below : ∀ f, 4 * (f / 32) + 4 ≤ NUM_FRAMES → s.pmm.bit f = true → f ≤ lastFrame
  taken : ∀ p ∈ s.live, ∃ f, p = frameToPhysical f ∧ 48 ≤ f ∧ f ≤ lastFrame ∧ s.pmm.bit f = true
  nodup : s.live.Nodup

lemma setFrames_ok {l : List ℕ} {s : Pmm} (hl : ∀ f ∈ l, 4 * (f / 32) + 4 ≤ s.numFrames) :
    ∃ t, l.foldlM setFrame s = .ok t ∧ t.numFrames = s.numFrames ∧
      ∀ g, t.bit g = (decide (g ∈ l) || s.bit g) := by
  induction l generalizing s with
  | nil => exact ⟨s, rfl, rfl, by simp⟩
  | cons f l ih =>
    obtain ⟨u, hu, hw⟩ := setFrame_ok (hl f (by simp))
    obtain ⟨t, ht, hn, hb⟩ := ih (s := u) (by
      intro g hg
      rw [hw.numFrames]
      exact hl g (by simp [hg]))
    refine ⟨t, by rw [List.foldlM_cons, hu, ok_bind, ht], hn.trans hw.numFrames, ?_⟩
    intro g
    rw [hb, hw.bit]
    by_cases hg : g = f <;> simp [hg]

lemma kinit_ok (memory : ℕ → BitVec 32) : ∃ t, kinit memory = .ok t ∧ Owned ⟨t, []⟩ ∧
    ∀ f, 4 * (f / 32) + 4 ≤ NUM_FRAMES → t.bit f = decide (f < 48) := by
  let s : Pmm := ⟨fun i => if 4 * i + 4 ≤ NUM_FRAMES then 0#32 else memory i, NUM_FRAMES⟩
  obtain ⟨t, ht, hn, hb⟩ := setFrames_ok (l := List.range 48) (s := s) (by
    intro f hf
    simp only [List.mem_range] at hf
    simp only [s, NUM_FRAMES]
    omega)
  have hbit : ∀ f, 4 * (f / 32) + 4 ≤ NUM_FRAMES → t.bit f = decide (f < 48) := by
    intro f hf
    have hz : s.bit f = false := by simp [Pmm.bit, s, hf]
    simp only [hb, hz, List.mem_range, Bool.or_false]
  refine ⟨t, ht, ⟨hn, ?_, ?_, by simp, by simp⟩, hbit⟩
  · intro f hf
    simp [hb, hf]
  · intro f hf
    rw [hbit f hf, decide_eq_true_eq, lastFrame]
    omega

lemma Owned.lowest {s : Owners} (h : Owned s) : ∃ f, s.pmm.Lowest f ∧ 48 ≤ f ∧ f ≤ lastFrame + 1 := by
  have hc : s.pmm.bit (lastFrame + 1) = false := by
    by_contra hb
    have := h.below (lastFrame + 1) (by decide) (by simpa using hb)
    omega
  have he : ∃ f, s.pmm.bit f = false := ⟨_, hc⟩
  have hl : s.pmm.Lowest (Nat.find he) :=
    ⟨Nat.find_spec he, fun g hg => by simpa using Nat.find_min he hg⟩
  refine ⟨_, hl, ?_, Nat.find_min' he hc⟩
  by_contra hr
  have := h.reserved (Nat.find he) (by omega)
  simp [hl.1] at this

lemma Owned.alloc {s : Owners} (h : Owned s) {p : ℕ} {t : Pmm} (ha : allocPhysPage s.pmm = .ok (p, t)) :
    ∃ f, s.pmm.Lowest f ∧ p = frameToPhysical f ∧ 48 ≤ f ∧ f ≤ lastFrame ∧ s.pmm.Writes f true t := by
  obtain ⟨f, hl, hf, hu⟩ := h.lowest
  have hd : f ≤ 3841 := hu
  obtain ⟨u, hw, he⟩ := allocPhysPage_lowest hl (by rw [h.sized, NUM_FRAMES]; omega)
  rw [he] at ha
  split at ha
  · simp at ha
  · obtain ⟨rfl, rfl⟩ := Prod.mk.injEq .. ▸ Except.ok.inj ha
    rename_i hb
    rw [frameToPhysical_eq (by omega)] at hb
    exact ⟨f, hl, rfl, hf, by simp only [lastFrame]; omega, hw⟩

/-- Releasing a live page clears its bit, or nothing when its frame lies past `num_frames`. -/
lemma Owned.clear {s : Owners} (h : Owned s) (f : ℕ) :
    ∃ t, clearFrame s.pmm f = .ok t ∧ t.numFrames = s.pmm.numFrames ∧
      ∀ g, t.bit g = if g = f ∧ f ≤ NUM_FRAMES then false else s.pmm.bit g := by
  have hn : NUM_FRAMES = 2560 := by decide
  by_cases hc : f ≤ NUM_FRAMES
  · obtain ⟨t, ht, hw⟩ := clearFrame_ok (s := s.pmm) (f := f) (by rw [h.sized]; exact hc)
      (by rw [h.sized]; omega)
    exact ⟨t, ht, hw.numFrames, by simpa [hc] using hw.bit⟩
  · exact ⟨s.pmm, clearFrame_beyond (by rw [h.sized]; omega), rfl, by simp [hc]⟩

lemma Owned.step_alloc {s : Owners} (h : Owned s) {p : ℕ} {t : Pmm}
    (ha : allocPhysPage s.pmm = .ok (p, t)) : Owned ⟨t, p :: s.live⟩ := by
  obtain ⟨f, hl, rfl, hf, hu, hw⟩ := h.alloc ha
  refine ⟨hw.numFrames.trans h.sized, ?_, ?_, ?_, ?_⟩
  · intro g hg
    rw [hw.bit, if_neg (by omega)]
    exact h.reserved g hg
  · intro g hb hg
    rw [hw.bit] at hg
    split at hg
    · omega
    · exact h.below g hb hg
  · intro p hp
    rcases List.mem_cons.mp hp with rfl | hp
    · exact ⟨f, rfl, hf, hu, by rw [hw.bit, if_pos rfl]⟩
    · obtain ⟨g, rfl, hg, hgu, hb⟩ := h.taken p hp
      exact ⟨g, rfl, hg, hgu, by rw [hw.bit, hb, ite_self]⟩
  · refine List.nodup_cons.mpr ⟨?_, h.nodup⟩
    intro hp
    obtain ⟨g, he, _, hgu, hb⟩ := h.taken _ hp
    rw [lastFrame] at hu hgu
    rw [frameToPhysical_eq (by omega), frameToPhysical_eq (by omega)] at he
    obtain rfl : f = g := by omega
    simp [hl.1] at hb

lemma Owned.step_free {s : Owners} (h : Owned s) {p : ℕ} {t : Pmm} (hp : p ∈ s.live)
    (hc : clearFrame s.pmm (physicalToFrame p) = .ok t) : Owned ⟨t, s.live.erase p⟩ := by
  obtain ⟨f, rfl, hf, hu, _⟩ := h.taken p hp
  rw [physicalToFrame_frameToPhysical (by rw [lastFrame] at hu; omega)] at hc
  obtain ⟨u, hu', hn, hb⟩ := h.clear f
  obtain rfl := Except.ok.inj (hu'.symm.trans hc)
  refine ⟨hn.trans h.sized, ?_, ?_, ?_, h.nodup.erase _⟩
  · intro g hg
    rw [hb, if_neg (by omega)]
    exact h.reserved g hg
  · intro g hgb hg
    rw [hb] at hg
    split at hg
    · simp at hg
    · exact h.below g hgb hg
  · intro q hq
    obtain ⟨hne, hq⟩ := (h.nodup.mem_erase_iff).mp hq
    obtain ⟨g, rfl, hg, hgu, hgb⟩ := h.taken q hq
    exact ⟨g, rfl, hg, hgu, by rw [hb, if_neg (fun he => hne (by rw [he.1])), hgb]⟩

lemma Owned.step {s t : Owners} {a : Op} (h : Owned s) (hs : Step s a t) : Owned t := by
  cases hs with
  | alloc ha => exact h.step_alloc ha
  | free hp hc => exact h.step_free hp hc

lemma run_owned {memory : ℕ → BitVec 32} {s₀ : Pmm} {ops : List Op} {s : Owners}
    (h₀ : kinit memory = .ok s₀) (h : Run Step ⟨s₀, []⟩ ops s) : Owned s := by
  obtain ⟨t, ht, ho, _⟩ := kinit_ok memory
  obtain rfl := Except.ok.inj (ht.symm.trans h₀)
  exact h.invariant (fun _ _ _ hi hs => hi.step hs) ho

/-- First fit and exclusive ownership, with every bitmap access inside the buffer: the
only way an operation does not come back is the out-of-memory panic. -/
structure FirstFit (s : Owners) : Prop where
  inside : ∀ e, allocPhysPage s.pmm = .error e → e = .panic "Out of memory!"
  alloc : ∀ p t, allocPhysPage s.pmm = .ok (p, t) → ∃ f, s.pmm.Lowest f ∧ p = frameToPhysical f ∧
    48 ≤ f ∧ (∀ q ∈ s.live, physicalToFrame q ≠ f) ∧ s.pmm.Writes f true t
  clear : ∀ p ∈ s.live, ∃ t, clearFrame s.pmm (physicalToFrame p) = .ok t ∧
    ∀ g, g ≠ physicalToFrame p → t.bit g = s.pmm.bit g

lemma Owned.inside {s : Owners} (h : Owned s) {e : Halt} (he : allocPhysPage s.pmm = .error e) :
    e = .panic "Out of memory!" := by
  obtain ⟨f, hl, _, hu⟩ := h.lowest
  have hd : f ≤ 3841 := hu
  obtain ⟨u, _, ha⟩ := allocPhysPage_lowest hl (by rw [h.sized, NUM_FRAMES]; omega)
  rw [ha] at he
  split at he
  · exact (Except.error.inj he).symm
  · simp at he

theorem run_first_fit {memory : ℕ → BitVec 32} {s₀ : Pmm} {ops : List Op} {s : Owners}
    (h₀ : kinit memory = .ok s₀) (h : Run Step ⟨s₀, []⟩ ops s) : FirstFit s := by
  have ho := run_owned h₀ h
  refine ⟨fun e => ho.inside, ?_, ?_⟩
  · intro p t ha
    obtain ⟨f, hl, hp, hf, _, hw⟩ := ho.alloc ha
    refine ⟨f, hl, hp, hf, ?_, hw⟩
    intro q hq he
    obtain ⟨g, rfl, _, hgu, hb⟩ := ho.taken q hq
    rw [physicalToFrame_frameToPhysical (by rw [lastFrame] at hgu; omega)] at he
    rw [he, hl.1] at hb
    simp at hb
  · intro p hp
    obtain ⟨f, rfl, _, hu, _⟩ := ho.taken p hp
    rw [physicalToFrame_frameToPhysical (by rw [lastFrame] at hu; omega)]
    obtain ⟨t, ht, _, hb⟩ := ho.clear f
    exact ⟨t, ht, fun g hg => by rw [hb, if_neg (fun he => hg he.1)]⟩

theorem run_first_fit_reuse : ∃ s₀ s, kinit (fun _ => 0#32) = .ok s₀ ∧
    Run Step ⟨s₀, []⟩ [.alloc, .free 0x130000] s ∧ FirstFit s := by
  obtain ⟨s₀, h₀, ho, _⟩ := kinit_ok (fun _ => 0#32)
  have hp : ((kinit fun _ => 0#32) >>= allocPhysPage).map Prod.fst = .ok 0x130000 := rfl
  rw [h₀, ok_bind] at hp
  obtain ⟨p, t, ha⟩ : ∃ p t, allocPhysPage s₀ = .ok (p, t) := by
    cases ha : allocPhysPage s₀ with
    | error e => simp [ha, Except.map] at hp
    | ok r => exact ⟨r.1, r.2, rfl⟩
  obtain rfl : p = 0x130000 := by simpa [ha, Except.map] using hp
  have h1 : Run Step ⟨s₀, []⟩ [.alloc] ⟨t, [0x130000]⟩ := .single (.alloc ha)
  obtain ⟨u, hc, _⟩ := (run_first_fit h₀ h1).clear 0x130000 (by simp)
  have h2 := h1.snoc (.free (by simp) hc)
  exact ⟨s₀, _, h₀, h2, run_first_fit h₀ h2⟩

end WordOS.Memory.PmmRuns
