import WordOS.Memory.PdpteContents
import WordOS.Memory.VmmTakeClean
import WordOS.Memory.VmmMapped

/-! Two runs of `create_new_pdptes` on frames with different old contents. -/

namespace WordOS.Memory

open Machine Lib

/-- The pages that `create_new_pdptes` is handed out for the three directories. -/
def newDirectories (pmm : Pmm) : Exec (ℕ × ℕ × ℕ) := do
  let (physPdlow, pmm) ← allocPhysPage pmm
  let (physPdmed, pmm) ← allocPhysPage pmm
  let (physPdhigh, _) ← allocPhysPage pmm
  return (physPdlow, physPdmed, physPdhigh)

def directoryFrames (s : Spaces) (v : ℕ) : List ℕ :=
  [(s.vmm.vmms v).pdLow / 4096, (s.vmm.vmms v).pdMid / 4096, (s.vmm.vmms v).pdHigh / 4096]

/-- A page directory with the recursive entry and no other present one. -/
structure Blank (p : Paging) (f : ℕ) : Prop where
  self : p.entries64 f 511 = 4096 * f ||| 1
  absent : ∀ k < 511, ¬ Present (p.entries64 f k)

/-- The VMM at `v` in one state and the one at `w` in another have equal directories, which hold no mappings. -/
structure BlankAlike (s : Spaces) (v : ℕ) (t : Spaces) (w : ℕ) : Prop where
  frames : directoryFrames t w = directoryFrames s v
  blank : ∀ f ∈ directoryFrames s v, Blank s.vmm.paging f ∧ Blank t.vmm.paging f
  same : ∀ f ∈ directoryFrames s v, ∀ k < 512, t.vmm.paging.entries64 f k = s.vmm.paging.entries64 f k

def Spaces.withPhys (s : Spaces) (m : Phys) : Spaces := s.withPaging { s.vmm.paging with phys := m }

namespace Paging

variable {s : Paging} {m : Phys} {pmm : Pmm} {p : ℕ}

lemma PaeReady.alloc (hs : s.PaeReady) (ha : allocPhysPage s.pmm = .ok (p, pmm)) : ∃ f, p = 4096 * f ∧ 256 ≤ f ∧
    ({ s with pmm := pmm } : Paging).PaeReady ∧ ({ s with pmm := pmm } : Paging).Parked f ∧
    ∀ g, s.Parked g → g ≠ f ∧ ({ s with pmm := pmm } : Paging).Parked g := by
  obtain ⟨f, hf, ⟨hb, -⟩, rfl, hw, hroom⟩ := allocPhysPage_low hs.spare.headroom ha
  refine ⟨256 + f, rfl, by omega, ⟨hs.recursive, hs.bits, hroom, fun g hg hgb => ?_⟩, ⟨hs.spare.unused f hf hb, f, rfl, ?_⟩,
    fun g hg => ?_⟩
  · rw [show ({ s with pmm := pmm } : Paging).pmm = pmm from rfl, hw.bit] at hgb
    split_ifs at hgb
    exact hs.spare.unused g hg hgb
  · rw [show ({ s with pmm := pmm } : Paging).pmm = pmm from rfl, hw.bit, if_pos rfl]
  · obtain ⟨hu, g, rfl, hgb⟩ := hg
    have hne : g ≠ f := fun h => Bool.false_ne_true (hb.symm.trans (h ▸ hgb))
    refine ⟨by omega, hu, g, rfl, ?_⟩
    rw [show ({ s with pmm := pmm } : Paging).pmm = pmm from rfl, hw.bit, if_neg hne, hgb]

lemma PaeReady.alloc_four {pmm₁ pmm₂ pmm₃ pmm₄ : Pmm} {p₁ p₂ p₃ p₄ : ℕ} (hs : s.PaeReady)
    (h₁ : allocPhysPage s.pmm = .ok (p₁, pmm₁)) (h₂ : allocPhysPage pmm₁ = .ok (p₂, pmm₂))
    (h₃ : allocPhysPage pmm₂ = .ok (p₃, pmm₃)) (h₄ : allocPhysPage pmm₃ = .ok (p₄, pmm₄)) :
    ∃ f₁ f₂ f₃ f₄, p₁ = 4096 * f₁ ∧ p₂ = 4096 * f₂ ∧ p₃ = 4096 * f₃ ∧ p₄ = 4096 * f₄ ∧ 256 ≤ f₄ ∧ f₁ ≠ f₂ ∧ f₁ ≠ f₃ ∧ f₂ ≠ f₃ ∧
      ({ s with pmm := pmm₄ } : Paging).PaeReady ∧ ∀ f ∈ [f₁, f₂, f₃], ({ s with pmm := pmm₄ } : Paging).Parked f := by
  obtain ⟨f₁, rfl, -, r₁, k₁, -⟩ := hs.alloc h₁
  obtain ⟨f₂, rfl, -, r₂, k₂, keep₂⟩ := r₁.alloc h₂
  obtain ⟨f₃, rfl, -, r₃, k₃, keep₃⟩ := r₂.alloc h₃
  obtain ⟨f₄, rfl, hle, r₄, -, keep₄⟩ := r₃.alloc h₄
  obtain ⟨h12, k₁⟩ := keep₂ f₁ k₁
  obtain ⟨h13, k₁⟩ := keep₃ f₁ k₁
  obtain ⟨h23, k₂⟩ := keep₃ f₂ k₂
  refine ⟨f₁, f₂, f₃, f₄, rfl, rfl, rfl, rfl, hle, h12, h13, h23, r₄, fun f hf => ?_⟩
  simp only [List.mem_cons, List.not_mem_nil, or_false] at hf
  rcases hf with rfl | rfl | rfl
  · exact (keep₄ f k₁).2
  · exact (keep₄ f k₂).2
  · exact (keep₄ f k₃).2

/-- What the frames that hold no table contain does not matter to `pae_mmap`. -/
lemma PaeReady.of_phys (hs : s.PaeReady) (hm : ∀ f, m f ≠ s.phys f → s.Unused f) : ({ s with phys := m } : Paging).PaeReady := by
  have hdir : ({ s with phys := m } : Paging).directory = s.directory := rfl
  have htab : ∀ i j, ({ s with phys := m } : Paging).table i j = s.table i j := fun i j => by
    refine PageTables.table_congr fun d hd => ?_
    have hsame : m d = s.phys d := by_contra fun h => (hm d h).not_dir i hd
    rw [entries64, entries64, Phys.read64, Phys.read64, show ({ s with phys := m } : Paging).phys d = m d from rfl, hsame]
  exact ⟨hs.recursive.of_tables htab, hs.bits, hs.spare.headroom, fun f hf hb =>
    ⟨(hs.spare.unused f hf hb).not_dir, fun i j h => (hs.spare.unused f hf hb).not_table i j ((htab i j).symm.trans h)⟩⟩

end Paging

variable {s t u : Spaces} {m : Phys} {fuel v w a b low mid high r : ℕ}

lemma newDirectories_ok {pmm : Pmm} : newDirectories pmm = .ok (low, mid, high) ↔ ∃ pmm₁ pmm₂ pmm₃,
    allocPhysPage pmm = .ok (low, pmm₁) ∧ allocPhysPage pmm₁ = .ok (mid, pmm₂) ∧ allocPhysPage pmm₂ = .ok (high, pmm₃) := by
  constructor
  · intro h
    obtain ⟨⟨l, pmm₁⟩, h₁, h⟩ := bind_eq_ok.mp h
    obtain ⟨⟨m, pmm₂⟩, h₂, h⟩ := bind_eq_ok.mp h
    obtain ⟨⟨k, pmm₃⟩, h₃, h⟩ := bind_eq_ok.mp h
    simp only [pure_eq, Except.ok.injEq, Prod.mk.injEq] at h
    obtain ⟨rfl, rfl, rfl⟩ := h
    exact ⟨pmm₁, pmm₂, pmm₃, h₁, h₂, h₃⟩
  · rintro ⟨pmm₁, pmm₂, pmm₃, h₁, h₂, h₃⟩
    simp only [newDirectories, h₁, h₂, h₃, ok_bind, pure_eq]

lemma paeKalloc_page (h0 : a ≠ 0) (ha : a % 4096 = 0) (hr : r ≠ 0) (h : paeKalloc fuel s 4096 0x3 a = .ok (r, t)) :
    ∃ base u q, vmmTakeRange fuel s.vmm s.vmm.kernelVmm 4096 = .ok (some base, u) ∧ r = u32 base ∧
      paeMmap s.vmm.paging a (u32 base) 0x3 = .ok q ∧ t = { s with vmm := { u with paging := q } } := by
  obtain ⟨⟨r', vmm⟩, halloc, hret⟩ := bind_eq_ok.mp h
  obtain ⟨rfl, rfl⟩ := Prod.mk.inj (Except.ok.inj hret)
  rw [vmmPageAlloc, show bytePgroundup (u32 4096) = 4096 by decide] at halloc
  obtain ⟨⟨o, u⟩, htake, halloc⟩ := bind_eq_ok.mp halloc
  cases o with
  | none =>
    obtain ⟨rfl, -⟩ := Prod.mk.inj (Except.ok.inj halloc)
    exact absurd rfl hr
  | some base =>
    obtain ⟨q, hmap, halloc⟩ := bind_eq_ok.mp halloc
    obtain ⟨rfl, rfl⟩ := Prod.mk.inj (Except.ok.inj halloc)
    obtain ⟨hpaging, -⟩ := vmmTakeRange_frame (w := 0) htake
    rw [show 4096 / 4096 = 0 + 1 from rfl, mapPages] at hmap
    simp only [if_neg h0, pure_eq, ok_bind, if_true, Nat.add_zero, hpaging] at hmap
    obtain ⟨q', hq, hmap⟩ := bind_eq_ok.mp hmap
    obtain rfl := Except.ok.inj hmap
    rw [pageOf, ha, Nat.sub_zero] at hq
    exact ⟨base, u, q', htake, by rw [ha, Nat.add_zero], hq, rfl⟩

lemma createVmm_paging {s t : VmmState} {rootPd lo hi storePage : ℕ} (h0 : storePage ≠ 0)
    (h : createVmm fuel s rootPd lo hi storePage = .ok (v, t)) : t.paging = s.paging := by
  simp only [createVmm, if_neg h0, pure_eq, ok_bind] at h
  obtain ⟨u, hu, h⟩ := bind_eq_ok.mp h
  obtain ⟨-, rfl⟩ := Prod.mk.inj (Except.ok.inj h)
  exact (vmmMakeNode_frame (w := 0) hu).1

lemma recordPdptes_fills (hs : (s.vmm.paging.only 3).PaeReady)
    (hbase : ∀ base x, vmmTakeRange fuel s.vmm s.vmm.kernelVmm 4096 = .ok (some base, x) → pdpteOf base = 3 ∧ pdIndexOf base ≠ 511)
    (hd : newDirectories s.vmm.paging.pmm = .ok (low, mid, high)) (h : recordPdptes fuel s = .ok (v, a, t)) :
    directoryFrames t v = [low / 4096, mid / 4096, high / 4096] ∧
      s.vmm.paging.FillsAll (low / 4096) (mid / 4096) (high / 4096) t.vmm.paging := by
  obtain ⟨pmm₁, pmm₂, pmm₃, h₁, h₂, h₃⟩ := newDirectories_ok.mp hd
  rw [recordPdptes] at h
  simp only [h₁, h₂, h₃, ok_bind] at h
  obtain ⟨⟨a', pmm₄⟩, h₄, h⟩ := bind_eq_ok.mp h
  obtain ⟨⟨r, s₁⟩, hk, h⟩ := bind_eq_ok.mp h
  dsimp only at hk h
  by_cases hr : r = 0
  · rw [if_pos hr] at h
    cases h
  rw [if_neg hr] at h
  obtain ⟨⟨v', x'⟩, hc, h⟩ := bind_eq_ok.mp h
  obtain ⟨p, hp, h⟩ := bind_eq_ok.mp h
  simp only [pure_eq, Except.ok.injEq, Prod.mk.injEq] at h
  obtain ⟨rfl, rfl, rfl⟩ := h
  dsimp only at hp
  obtain ⟨f₁, f₂, f₃, f₄, rfl, rfl, rfl, rfl, hle, h12, h13, h23, hready, hparked⟩ := hs.alloc_four h₁ h₂ h₃ h₄
  obtain ⟨base, x, q, htake, rfl, hq, rfl⟩ := paeKalloc_page (by omega) (by omega) hr hk
  have htake := vmmTakeRange_withPaging_ok htake s.vmm.paging
  obtain ⟨hi, hj⟩ := hbase base _ htake
  have hu : pdpteOf (u32 base) = pdpteOf base ∧ pdIndexOf (u32 base) = pdIndexOf base := by
    rw [pdpteOf, pdpteOf, pdIndexOf, pdIndexOf, u32_u32]
    exact ⟨rfl, rfl⟩
  have hq3 : paeMmap (({ s.vmm.paging with pmm := pmm₄ } : Paging).only 3) (4096 * f₄) (u32 base) 0x3 = _ :=
    Paging.paeMmap_only (hu.1.trans hi)
  rw [show paeMmap { s.vmm.paging with pmm := pmm₄ } (4096 * f₄) (u32 base) 0x3 = .ok q from hq] at hq3
  obtain ⟨hq', -, -, -, -, hkeep⟩ := hready.paeMmap (hu.2 ▸ hj) (by norm_num) hq3
  have hpaging : x'.paging = q := createVmm_paging hr hc
  have hp3 : mapPds (q.only 3) (4096 * f₁) (4096 * f₂) (4096 * f₃) = _ := Paging.mapPds_only
  rw [show mapPds q (4096 * f₁) (4096 * f₂) (4096 * f₃) = .ok p from hpaging ▸ hp] at hp3
  have hmem : f₁ ∈ [f₁, f₂, f₃] ∧ f₂ ∈ [f₁, f₂, f₃] ∧ f₃ ∈ [f₁, f₂, f₃] := by simp
  have hfills := Paging.mapPds_ok hq' (hkeep _ (hparked _ hmem.1)).1 (hkeep _ (hparked _ hmem.2.1)).1
    (hkeep _ (hparked _ hmem.2.2)).1 h12 h13 h23 hp3
  have hdiv : ∀ f, 4096 * f / 4096 = f := fun f => Nat.mul_div_cancel_left f (by norm_num)
  rw [hdiv, hdiv, hdiv]
  refine ⟨?_, hfills.low_blank, hfills.low_self, hfills.mid_blank, hfills.mid_self, fun k hk => ?_, hfills.high_self⟩
  · simp only [directoryFrames, Spaces.setVmm, Function.update_self, hdiv]
  · exact (hfills.high_stale k hk).trans ((hkeep _ (hparked _ hmem.2.2)).2 k)

lemma blank_of_zero {p : Paging} {f : ℕ} (hself : p.entries64 f 511 = 4096 * f ||| 1) (h0 : ∀ k < 511, p.entries64 f k = 0) : Blank p f :=
  ⟨hself, fun k hk => by rw [h0 k hk]; decide⟩

lemma same_entries {p q : Paging} {f : ℕ} (h : ∀ k < 511, q.entries64 f k = p.entries64 f k)
    (hlast : q.entries64 f 511 = p.entries64 f 511) : ∀ k < 512, q.entries64 f k = p.entries64 f k := by
  intro k hk
  rcases Nat.lt_or_ge k 511 with hk' | hk'
  · exact h k hk'
  · obtain rfl : k = 511 := by omega
    exact hlast

lemma fills_alike_iff {p q p' q' : Paging} (hp : p.FillsAll low mid high p') (hq : q.FillsAll low mid high q') :
    ((∀ f ∈ [low, mid, high], Blank p' f ∧ Blank q' f) ∧ ∀ f ∈ [low, mid, high], ∀ k < 512, q'.entries64 f k = p'.entries64 f k) ↔
      ∀ k < 511, ¬ Present (p.entries64 high k) ∧ q.entries64 high k = p.entries64 high k := by
  simp only [List.forall_mem_cons, List.not_mem_nil, IsEmpty.forall_iff, implies_true, and_true]
  constructor
  · rintro ⟨⟨-, -, hblank, -⟩, -, -, hsame⟩ k hk
    rw [← hp.high_stale k hk, ← hq.high_stale k hk]
    exact ⟨hblank.absent k hk, hsame k (by omega)⟩
  · intro h
    have hlow : ∀ k < 511, q'.entries64 low k = p'.entries64 low k := fun k hk => (hq.low_blank k hk).trans (hp.low_blank k hk).symm
    have hmid : ∀ k < 511, q'.entries64 mid k = p'.entries64 mid k := fun k hk => (hq.mid_blank k hk).trans (hp.mid_blank k hk).symm
    have hhigh : ∀ k < 511, q'.entries64 high k = p'.entries64 high k := fun k hk => by
      rw [hp.high_stale k hk, hq.high_stale k hk, (h k hk).2]
    have hstale : ∀ k < 511, ¬ Present (p'.entries64 high k) := fun k hk => hp.high_stale k hk ▸ (h k hk).1
    refine ⟨⟨⟨blank_of_zero hp.low_self hp.low_blank, blank_of_zero hq.low_self hq.low_blank⟩,
      ⟨blank_of_zero hp.mid_self hp.mid_blank, blank_of_zero hq.mid_self hq.mid_blank⟩,
      ⟨hp.high_self, hstale⟩, ⟨hq.high_self, fun k hk => hhigh k hk ▸ hstale k hk⟩⟩, ?_, ?_, ?_⟩
    · exact same_entries hlow (hq.low_self.trans hp.low_self.symm)
    · exact same_entries hmid (hq.mid_self.trans hp.mid_self.symm)
    · exact same_entries hhigh (hq.high_self.trans hp.high_self.symm)

lemma newDirectories_unused {p : Paging} (hs : p.PaeReady) (hd : newDirectories p.pmm = .ok (low, mid, high)) :
    ∀ f ∈ [low / 4096, mid / 4096, high / 4096], p.Unused f := by
  obtain ⟨pmm₁, pmm₂, pmm₃, h₁, h₂, h₃⟩ := newDirectories_ok.mp hd
  obtain ⟨f₁, rfl, -, r₁, k₁, -⟩ := hs.alloc h₁
  obtain ⟨f₂, rfl, -, r₂, k₂, -⟩ := r₁.alloc h₂
  obtain ⟨f₃, rfl, -, -, k₃, -⟩ := r₂.alloc h₃
  intro f hf
  simp only [List.mem_cons, List.not_mem_nil, or_false, Nat.mul_div_cancel_left _ (show 0 < 4096 by norm_num)] at hf
  rcases hf with rfl | rfl | rfl
  · exact k₁.unused
  · exact k₂.unused
  · exact k₃.unused

lemma Paging.PaeReady.withPhys (hs : (s.vmm.paging.only 3).PaeReady) (hd : newDirectories s.vmm.paging.pmm = .ok (low, mid, high))
    (hm : ∀ f, f ∉ [low / 4096, mid / 4096, high / 4096] → m f = s.vmm.paging.phys f) :
    ((s.withPhys m).vmm.paging.only 3).PaeReady :=
  hs.of_phys fun f hf => newDirectories_unused hs hd f (by_contra fun h => hf (hm f h))

/-- Two runs on the same frames leave equal directories without mappings if and only if the third frame, the one that is not
cleared, held the same in both and no present entry. -/
theorem recordPdptes_alike_iff (hs : (s.vmm.paging.only 3).PaeReady)
    (hbase : ∀ base x, vmmTakeRange fuel s.vmm s.vmm.kernelVmm 4096 = .ok (some base, x) → pdpteOf base = 3 ∧ pdIndexOf base ≠ 511)
    (hd : newDirectories s.vmm.paging.pmm = .ok (low, mid, high))
    (hm : ∀ f, f ∉ [low / 4096, mid / 4096, high / 4096] → m f = s.vmm.paging.phys f)
    (ht : recordPdptes fuel s = .ok (v, a, t)) (hu : recordPdptes fuel (s.withPhys m) = .ok (w, b, u)) :
    BlankAlike t v u w ↔ ∀ k < 511, ¬ Present (s.vmm.paging.entries64 (high / 4096) k) ∧
      (s.withPhys m).vmm.paging.entries64 (high / 4096) k = s.vmm.paging.entries64 (high / 4096) k := by
  obtain ⟨hframes, hfill⟩ := recordPdptes_fills hs hbase hd ht
  obtain ⟨hframes', hfill'⟩ := recordPdptes_fills (hs.withPhys hd hm)
    (fun base x hx => hbase base _ (vmmTakeRange_withPaging_ok hx s.vmm.paging)) hd hu
  rw [← fills_alike_iff hfill hfill', ← hframes]
  constructor
  · intro h
    exact ⟨h.blank, h.same⟩
  · rintro ⟨hblank, hsame⟩
    exact ⟨hframes'.trans hframes.symm, hblank, hsame⟩

namespace Paging

/-- A page directory for the last GiB in frame 1, with tables for the pages from 0xCC000000 and from `TEMP_PAGE_VIRT` on; the
first word of the other frames is left open. -/
def withOld (old : ℕ → ℕ) : Paging where
  phys := fun f i =>
    if f = 1 then if i = 1022 then 0x1003 else if i = 192 then 0x2003 else if i = 1008 then 0x3003 else 0
    else if i = 0 then old f else 0
  pmm := ⟨fun _ => 0, NUM_FRAMES⟩
  cr3 := 0
  pdpt := fun i => if i = 3 then 0x1001 else 0
  maxBitExtension := 36

variable (old : ℕ → ℕ) {i j f : ℕ}

lemma withOld_directory : (withOld old).directory i = if i = 3 then some 1 else none := by
  by_cases h : i = 3
  · subst h
    rw [directory, if_pos (by norm_num), show (withOld old).pdpt 3 = 0x1001 from rfl]
    decide
  · rw [if_neg h, directory]
    split_ifs
    · rw [show (withOld old).pdpt i = 0 from if_neg h]
      rfl
    · rfl

lemma withOld_read : (withOld old).phys.read64 1 j =
    if j = 511 then 0x1003 else if j = 96 then 0x2003 else if j = 504 then 0x3003 else 0 := by
  simp only [withOld, Phys.read64, if_true]
  rw [if_neg (show 2 * j + 1 ≠ 1022 by omega), if_neg (show 2 * j + 1 ≠ 192 by omega), if_neg (show 2 * j + 1 ≠ 1008 by omega),
    Nat.mul_zero, Nat.add_zero]
  exact if_congr (by omega) rfl (if_congr (by omega) rfl (if_congr (by omega) rfl rfl))

lemma withOld_table : (withOld old).table i j =
    if i = 3 then if j = 511 then some 1 else if j = 96 then some 2 else if j = 504 then some 3 else none else none := by
  rw [table, PageTables.table, withOld_directory]
  by_cases hi : i = 3
  · rw [if_pos hi, if_pos hi, Option.bind_some, entries64, withOld_read]
    split_ifs
    all_goals first | omega | decide
  · rw [if_neg hi, if_neg hi, Option.bind_none]

lemma withOld_table_some (h : (withOld old).table i j = some f) : i = 3 ∧ (j = 511 ∧ f = 1 ∨ j = 96 ∧ f = 2 ∨ j = 504 ∧ f = 3) := by
  rw [withOld_table] at h
  split_ifs at h with hi h₁ h₂ h₃
  · exact ⟨hi, .inl ⟨h₁, (Option.some.inj h).symm⟩⟩
  · exact ⟨hi, .inr (.inl ⟨h₂, (Option.some.inj h).symm⟩)⟩
  · exact ⟨hi, .inr (.inr ⟨h₃, (Option.some.inj h).symm⟩)⟩

lemma withOld_blank {k : ℕ} (hf : f ≠ 1) (h : old f = 0) : (withOld old).entries64 f k = 0 := by
  simp [entries64, Phys.read64, withOld, hf, h]

lemma withOld_recursive : (withOld old).Recursive := by
  have hd : ∀ i d, (withOld old).directory i = some d → i = 3 ∧ d = 1 := fun i d h => by
    rw [withOld_directory] at h
    split_ifs at h with hi
    exact ⟨hi, (Option.some.inj h).symm⟩
  refine ⟨fun i d h => ?_, fun i i' d h h' => (hd i d h).1.trans (hd i' d h').1.symm, fun i j t i' hj h hd' => ?_,
    fun i j i' j' t hj hj' h h' => ?_⟩
  · obtain ⟨rfl, rfl⟩ := hd i d h
    rw [entries64, if_pos (by norm_num), withOld_read]
    decide
  · obtain ⟨-, h⟩ := withOld_table_some old h
    obtain ⟨-, rfl⟩ := hd i' t hd'
    omega
  · obtain ⟨rfl, h⟩ := withOld_table_some old h
    obtain ⟨rfl, h'⟩ := withOld_table_some old h'
    omega

lemma withOld_ready_of {pmm : Pmm} (hroom : pmm.Headroom) : ({ withOld old with pmm := pmm } : Paging).PaeReady := by
  refine ⟨withOld_recursive old, show 36 ≤ 52 by norm_num, hroom, fun f _ _ => ⟨fun i hi => ?_, fun i j hij => ?_⟩⟩
  · change (withOld old).directory i = _ at hi
    rw [withOld_directory] at hi
    split_ifs at hi
    exact absurd (Option.some.inj hi) (by omega)
  · obtain ⟨-, h⟩ := withOld_table_some old hij
    omega

lemma withOld_ready : (withOld old).PaeReady :=
  withOld_ready_of old ⟨0xF01, by decide, by decide, by decide, by decide⟩

end Paging

lemma createVmm_withPaging_ok {s x : VmmState} {rootPd lo hi storePage : ℕ} (h0 : storePage ≠ 0)
    (h : createVmm fuel s rootPd lo hi storePage = .ok (v, x)) (p : Paging) :
    createVmm fuel (s.withPaging p) rootPd lo hi storePage = .ok (v, x.withPaging p) := by
  simp only [createVmm, if_neg h0, pure_eq, ok_bind] at h ⊢
  obtain ⟨y, hy, h⟩ := bind_eq_ok.mp h
  refine bind_eq_ok.mpr ⟨y.withPaging p, ?_, ?_⟩
  · rw [show storeVmm (s.withPaging p) rootPd lo hi storePage = (storeVmm s rootPd lo hi storePage).withPaging p from rfl,
      vmmMakeNode_withPaging]
    exact congrArg (Except.map fun x => x.withPaging p) hy
  · cases h
    rfl

/-- The kernel's VMM, with one free range, and the frames of physical memory with old contents. -/
def staleKernel (old : ℕ → ℕ) : Spaces := ⟨onePdVmm.withPaging (Paging.withOld old), 0x1000⟩

lemma exists_fourPages {pmm : Pmm} {p₁ p₂ p₃ p₄ : ℕ} (h : ((allocPhysPage pmm >>= fun p => allocPhysPage p.2 >>= fun q =>
      allocPhysPage q.2 >>= fun r => allocPhysPage r.2 >>= fun t => .ok (p, q, r, t)).toOption.map fun (p, q, r, t) =>
        decide (p.1 = p₁ ∧ q.1 = p₂ ∧ r.1 = p₃ ∧ t.1 = p₄ ∧ 4 ≤ t.2.numFrames)) = some true) :
    ∃ pmm₁ pmm₂ pmm₃ pmm₄, allocPhysPage pmm = .ok (p₁, pmm₁) ∧ allocPhysPage pmm₁ = .ok (p₂, pmm₂) ∧
      allocPhysPage pmm₂ = .ok (p₃, pmm₃) ∧ allocPhysPage pmm₃ = .ok (p₄, pmm₄) ∧ 4 ≤ pmm₄.numFrames := by
  obtain ⟨⟨⟨a₁, pmm₁⟩, ⟨a₂, pmm₂⟩, ⟨a₃, pmm₃⟩, a₄, pmm₄⟩, h, hg⟩ := exists_of_toOption_map h
  obtain ⟨p, h₁, h⟩ := bind_eq_ok.mp h
  obtain ⟨q, h₂, h⟩ := bind_eq_ok.mp h
  obtain ⟨r, h₃, h⟩ := bind_eq_ok.mp h
  obtain ⟨t, h₄, h⟩ := bind_eq_ok.mp h
  cases h
  obtain ⟨rfl, rfl, rfl, rfl, hn⟩ := of_decide_eq_true hg
  exact ⟨pmm₁, pmm₂, pmm₃, pmm₄, h₁, h₂, h₃, h₄, hn⟩

lemma freshPages : ∃ pmm₁ pmm₂ pmm₃ pmm₄, allocPhysPage ⟨fun _ => 0, NUM_FRAMES⟩ = .ok (0x100000, pmm₁) ∧
    allocPhysPage pmm₁ = .ok (0x101000, pmm₂) ∧ allocPhysPage pmm₂ = .ok (0x102000, pmm₃) ∧
    allocPhysPage pmm₃ = .ok (0x103000, pmm₄) ∧ 4 ≤ pmm₄.numFrames :=
  exists_fourPages (by decide)

lemma onePdVmm_store : ∃ x y, vmmTakeRange 4 onePdVmm 0x1000 4096 = .ok (some 0xCC000000, x) ∧
    createVmm 4 x 0 0x10000 0xc0000000 0xCC000000 = .ok (0xCC000000, y) := by
  obtain ⟨⟨⟨o, x⟩, v, y⟩, h, hg⟩ := exists_of_toOption_map
    (x := vmmTakeRange 4 onePdVmm 0x1000 4096 >>= fun p => createVmm 4 p.2 0 0x10000 0xc0000000 0xCC000000 >>= fun q => .ok (p, q))
    (g := fun (p, q) => (p.1, q.1)) (c := (some 0xCC000000, 0xCC000000)) (by decide)
  obtain ⟨p, hp, h⟩ := bind_eq_ok.mp h
  obtain ⟨q, hq, h⟩ := bind_eq_ok.mp h
  cases h
  obtain ⟨ho, hv⟩ := Prod.mk.inj hg
  obtain rfl : o = some 0xCC000000 := ho
  obtain rfl : v = 0xCC000000 := hv
  exact ⟨x, y, hp, hq⟩

lemma paeKalloc_total {base : ℕ} {x : VmmState} {q : Paging} (h0 : a ≠ 0) (ha : a % 4096 = 0)
    (htake : vmmTakeRange fuel s.vmm s.vmm.kernelVmm 4096 = .ok (some base, x))
    (hq : paeMmap s.vmm.paging a (u32 base) 0x3 = .ok q) :
    paeKalloc fuel s 4096 0x3 a = .ok (u32 base, { s with vmm := x.withPaging q }) := by
  obtain ⟨hpaging, -⟩ := vmmTakeRange_frame (w := 0) htake
  rw [paeKalloc, vmmPageAlloc, show bytePgroundup (u32 4096) = 4096 by decide, htake]
  simp only [ok_bind, show 4096 / 4096 = 0 + 1 from rfl, mapPages, if_neg h0, pure_eq, if_true, Nat.add_zero, hpaging, pageOf, ha,
    Nat.sub_zero, hq]
  rfl

lemma recordPdptes_total {pmm₁ pmm₂ pmm₃ pmm₄ : Pmm} {s₁ : Spaces} {x : VmmState} {p : Paging}
    (h₁ : allocPhysPage s.vmm.paging.pmm = .ok (low, pmm₁)) (h₂ : allocPhysPage pmm₁ = .ok (mid, pmm₂))
    (h₃ : allocPhysPage pmm₂ = .ok (high, pmm₃)) (h₄ : allocPhysPage pmm₃ = .ok (a, pmm₄))
    (hk : paeKalloc fuel (s.withPaging { s.vmm.paging with pmm := pmm₄ }) 4096 0x3 a = .ok (r, s₁)) (hr : r ≠ 0)
    (hc : createVmm fuel s₁.vmm 0 0x10000 0xc0000000 r = .ok (v, x)) (hp : mapPds x.paging low mid high = .ok p) :
    ∃ t, recordPdptes fuel s = .ok (v, a, t) := by
  simp only [recordPdptes, h₁, h₂, h₃, h₄, ok_bind, hk, if_neg hr, hc, hp, pure_eq]
  exact ⟨_, rfl⟩

/-- A kernel with the one free range of `onePdVmm`, and tables there and at `TEMP_PAGE_VIRT`. -/
lemma recordPdptes_onePdVmm {p : Paging} {pmm₁ pmm₂ pmm₃ pmm₄ : Pmm} {f g : ℕ} (hp : p.PaeReady)
    (h₁ : allocPhysPage p.pmm = .ok (low, pmm₁)) (h₂ : allocPhysPage pmm₁ = .ok (mid, pmm₂))
    (h₃ : allocPhysPage pmm₂ = .ok (high, pmm₃)) (h₄ : allocPhysPage pmm₃ = .ok (a, pmm₄)) (hn : 4 ≤ pmm₄.numFrames)
    (hlt : ∀ x ∈ [low, mid, high, a], x < 2 ^ 32) (hpres : Present (p.pdpt 3)) (hbits : p.maxBitExtension = 36)
    (hbase : p.table 3 96 = some f) (htemp : p.table 3 504 = some g) :
    ∃ t, recordPdptes 4 ⟨onePdVmm.withPaging p, 0x1000⟩ = .ok (0xCC000000, a, t) := by
  obtain ⟨x, y, hx, hy⟩ := onePdVmm_store
  obtain ⟨f₁, f₂, f₃, f₄, rfl, rfl, rfl, rfl, hge, -, -, -, hready, hparked⟩ := hp.alloc_four h₁ h₂ h₃ h₄
  set s : Paging := { p with pmm := pmm₄ } with hs
  have hpdpt : s.pdpt = p.pdpt := rfl
  have hbase : s.table 3 96 = some f := hbase
  obtain ⟨q, hq, hmaps⟩ : ∃ q, paeMmap s (4096 * f₄) 0xCC000000 3 = .ok q ∧ _ := Paging.paeMmap_ok hready.recursive
    hpres (by decide) (by rw [show s.maxBitExtension = 36 from hbits]; exact (hlt (4096 * f₄) (by simp)).trans (by norm_num)) (by omega)
    (Nat.or_lt_two_pow ((hlt (4096 * f₄) (by simp)).trans (by norm_num)) (by norm_num))
    fun hnone => absurd (hbase.symm.trans hnone) (by simp)
  obtain ⟨hq', -, -, -, -, hkeep⟩ := hready.paeMmap (by decide) (by norm_num) hq
  have htemp' : q.table 3 504 = some g := (hmaps.table hready.recursive hbase (by decide) 3 504).trans htemp
  have hmappable : ∀ f, 4096 * f < 2 ^ 32 → q.Mappable f := fun f hf => by
    refine ⟨?_, ⟨g, htemp'⟩, ?_⟩
    · rw [hmaps.pdpt]
      exact hpres
    · rw [Paging.paeMmap_maxBits hq, show s.maxBitExtension = 36 from hbits]
      omega
  obtain ⟨p', hp'⟩ := Paging.mapPds_total hq' (hmaps.numFrames ▸ hn) fun f hf =>
    ⟨(hkeep f (hparked f hf)).1, hmappable f (hlt (4096 * f) (by simp at hf; simp; tauto))⟩
  have htake : vmmTakeRange 4 (onePdVmm.withPaging s) 0x1000 4096 = .ok (some 0xCC000000, x.withPaging s) :=
    vmmTakeRange_withPaging_ok hx s
  have hkalloc := paeKalloc_total (s := ⟨onePdVmm.withPaging s, 0x1000⟩) (by omega) (by omega) htake hq
  exact recordPdptes_total (s := ⟨onePdVmm.withPaging p, 0x1000⟩) h₁ h₂ h₃ h₄ hkalloc (by decide)
    (createVmm_withPaging_ok (by norm_num) hy q) hp'

lemma recordPdptes_stale (old : ℕ → ℕ) : ∃ a t, recordPdptes 4 (staleKernel old) = .ok (0xCC000000, a, t) := by
  obtain ⟨pmm₁, pmm₂, pmm₃, pmm₄, h₁, h₂, h₃, h₄, hn⟩ := freshPages
  obtain ⟨t, ht⟩ := recordPdptes_onePdVmm (f := 2) (g := 3) (Paging.withOld_ready old) h₁ h₂ h₃ h₄ hn (by simp)
    (show Present 0x1001 by decide) rfl ((Paging.withOld_table old).trans (by decide)) ((Paging.withOld_table old).trans (by decide))
  exact ⟨0x103000, t, ht⟩

variable (old : ℕ → ℕ)

lemma staleKernel_ready : ((staleKernel old).vmm.paging.only 3).PaeReady := by
  rw [show (staleKernel old).vmm.paging.only 3 = Paging.withOld old from rfl]
  exact Paging.withOld_ready old

lemma staleKernel_base : ∀ base x, vmmTakeRange 4 (staleKernel old).vmm (staleKernel old).vmm.kernelVmm 4096 = .ok (some base, x) →
    pdpteOf base = 3 ∧ pdIndexOf base ≠ 511 := by
  intro base x h
  obtain ⟨y, -, hy, -⟩ := onePdVmm_store
  have hy' := vmmTakeRange_withPaging_ok hy (Paging.withOld old)
  obtain ⟨hb, -⟩ := Prod.mk.inj (Except.ok.inj (hy'.symm.trans h))
  obtain rfl := Option.some.inj hb
  decide

lemma staleKernel_directories : newDirectories (staleKernel old).vmm.paging.pmm = .ok (0x100000, 0x101000, 0x102000) := by
  obtain ⟨pmm₁, pmm₂, pmm₃, -, h₁, h₂, h₃, -⟩ := freshPages
  exact newDirectories_ok.mpr ⟨pmm₁, pmm₂, pmm₃, h₁, h₂, h₃⟩

/-- Two runs of the same kernel, on frames with nothing in them and on frames with `old` in their first word. -/
lemma staleKernel_runs (h : ∀ f, f ∉ [0x100000 / 4096, 0x101000 / 4096, 0x102000 / 4096] → old f = 0) :
    ∃ a b t u, recordPdptes 4 (staleKernel fun _ => 0) = .ok (0xCC000000, a, t) ∧
      recordPdptes 4 ((staleKernel fun _ => 0).withPhys (Paging.withOld old).phys) = .ok (0xCC000000, b, u) ∧
      ∀ f, f ∉ [0x100000 / 4096, 0x101000 / 4096, 0x102000 / 4096] →
        (Paging.withOld old).phys f = (staleKernel fun _ => 0).vmm.paging.phys f := by
  obtain ⟨a, t, ht⟩ := recordPdptes_stale fun _ => 0
  obtain ⟨b, u, hu⟩ := recordPdptes_stale old
  refine ⟨a, b, t, u, ht, hu, fun f hf => ?_⟩
  funext i
  simp only [staleKernel, VmmState.withPaging, Paging.withOld, h f hf]

/-- Old contents of the first two frames do not show. -/
theorem recordPdptes_alike_iff_fresh : ∃ a b t u, recordPdptes 4 (staleKernel fun _ => 0) = .ok (0xCC000000, a, t) ∧
    recordPdptes 4 ((staleKernel fun _ => 0).withPhys (Paging.withOld fun f => if f = 256 ∨ f = 257 then 0x9003 else 0).phys) =
      .ok (0xCC000000, b, u) ∧
    BlankAlike t 0xCC000000 u 0xCC000000 := by
  obtain ⟨a, b, t, u, ht, hu, hm⟩ := staleKernel_runs (fun f => if f = 256 ∨ f = 257 then 0x9003 else 0) fun f hf => by
    simp only [List.mem_cons, List.not_mem_nil, or_false, not_or] at hf
    exact if_neg (by omega)
  refine ⟨a, b, t, u, ht, hu, (recordPdptes_alike_iff (staleKernel_ready _) (staleKernel_base _) (staleKernel_directories _) hm ht hu).mpr
    fun k _ => ?_⟩
  have h : (staleKernel fun _ => 0).vmm.paging.entries64 (0x102000 / 4096) k = 0 := Paging.withOld_blank _ (by norm_num) rfl
  refine ⟨?_, (Paging.withOld_blank (fun f => if f = 256 ∨ f = 257 then 0x9003 else 0) (by norm_num) rfl).trans h.symm⟩
  rw [h]
  decide

/-- A page of memory that the third frame named in its former life is mapped in the new process. -/
theorem recordPdptes_keeps_stale : ((staleKernel fun _ => 0).vmm.paging.only 3).PaeReady ∧
    newDirectories (staleKernel fun _ => 0).vmm.paging.pmm = .ok (0x100000, 0x101000, 0x102000) ∧
    (∀ f, f ∉ [256, 257, 258] →
      (Paging.withOld fun f => if f = 258 then 0x9003 else 0).phys f = (staleKernel fun _ => 0).vmm.paging.phys f) ∧
    ∃ a b t u, recordPdptes 4 (staleKernel fun _ => 0) = .ok (0xCC000000, a, t) ∧
      recordPdptes 4 ((staleKernel fun _ => 0).withPhys (Paging.withOld fun f => if f = 258 then 0x9003 else 0).phys) =
        .ok (0xCC000000, b, u) ∧
      u.vmm.paging.entries64 258 0 = 0x9003 ∧ ¬ BlankAlike t 0xCC000000 u 0xCC000000 := by
  obtain ⟨a, b, t, u, ht, hu, hm⟩ := staleKernel_runs (fun f => if f = 258 then 0x9003 else 0) fun f hf => by
    simp only [List.mem_cons, List.not_mem_nil, or_false, not_or] at hf
    exact if_neg (by omega)
  obtain ⟨hframes, -⟩ := recordPdptes_fills (staleKernel_ready _) (staleKernel_base _) (staleKernel_directories _) ht
  obtain ⟨-, hfill⟩ := recordPdptes_fills (staleKernel_ready _) (staleKernel_base _) (staleKernel_directories _) hu
  have hstale : u.vmm.paging.entries64 258 0 = 0x9003 := (hfill.high_stale 0 (by norm_num)).trans (by decide)
  refine ⟨staleKernel_ready _, staleKernel_directories _, hm, a, b, t, u, ht, hu, hstale, fun h => ?_⟩
  have habsent := (h.blank 258 (by rw [hframes]; simp)).2.absent 0 (by norm_num)
  rw [hstale] at habsent
  exact habsent (by decide)

end WordOS.Memory
