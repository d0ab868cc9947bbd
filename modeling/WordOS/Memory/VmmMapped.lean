import WordOS.Memory.PageRange
import WordOS.Memory.VmmTakeFrame

/-! Which physical bytes are behind the bytes that `vmm_page_alloc` gives away. -/

namespace WordOS.Memory

open Machine

variable {s t u : VmmState} {pae : Bool} {phys flags w fuel cvmm length base v : ℕ}

/-- The pages that are mapped hold every byte of the request, or the page behind them was mapped to go on with it. -/
def Covers (pae : Bool) (s : Paging) (base length phys : ℕ) : Prop :=
  base % 4096 = 0 ∧ (pae = true ∨ phys + length ≤ 2 ^ 32) ∧
    (phys % 4096 + length ≤ bytePgroundup length ∨
      s.byteAt pae (u32 (base + bytePgroundup length)) = some (pageOf phys + bytePgroundup length))

lemma bytePgroundup_bounds (h : length ≤ 0xFFFFF000) :
    bytePgroundup length % 4096 = 0 ∧ length ≤ bytePgroundup length ∧ bytePgroundup length ≤ 0xFFFFF000 := by
  rw [bytePgroundup, pageOf, u32]
  omega

/-- Page for page, what a call has mapped at `base`, and that it left the page behind. -/
structure RangeMapped (pae : Bool) (s t : Paging) (base length phys : ℕ) : Prop where
  inside : ∀ k < length / 4096, ∀ w < 2 ^ 32, w / 4096 = pageAt base k →
    t.frameAt pae w = some (physArg pae (pageOf phys + 4096 * k) / 4096)
  behind : ∀ w < 2 ^ 32, w / 4096 = pageAt base (length / 4096) → pae = true ∨ (s.frameAt pae w).isSome →
    t.frameAt pae w = s.frameAt pae w

lemma vmmPageAlloc_pages (hlen : length ≤ 0xFFFFF000) (hphys : phys ≠ 0)
    (hf : flags < 4096) (hpres : Present flags) (hs : s.paging.Ready pae (s.vmms cvmm).rootPd)
    (hr : vmmTakeRange fuel s cvmm (bytePgroundup length) = .ok (some base, u))
    (hwin : ∀ k ≤ bytePgroundup length / 4096, ¬ InWindow pae (u32 (base + 4096 * k)))
    (ha : vmmPageAlloc fuel s cvmm length flags phys pae = .ok (v, t)) :
    v = u32 (base + phys % 4096) ∧ RangeMapped pae s.paging t.paging base (bytePgroundup length) phys := by
  obtain ⟨hmod, hle, hmax⟩ := bytePgroundup_bounds hlen
  rw [vmmPageAlloc, u32_eq (show length < 2 ^ 32 by omega)] at ha
  rw [hr, ok_bind] at ha
  obtain ⟨p, hp, ha⟩ := bind_eq_ok.mp ha
  obtain ⟨rfl, rfl⟩ := Prod.mk.inj (Except.ok.inj ha)
  obtain ⟨hpaging, -, hroot⟩ := vmmTakeRange_frame (w := cvmm) hr
  rw [hpaging, hroot] at hp
  generalize bytePgroundup length = l at *
  obtain ⟨hin, hout⟩ := mapPages_ok (m := 0) hphys hs hf hpres (by omega) (fun k hk => hwin k (by omega)) hp
  refine ⟨rfl, ⟨fun k hk w hw hpage => hin k (Nat.zero_le k) (by omega) w hw hpage, fun w hw hpage hsome => ?_⟩⟩
  refine hout w hw (fun k _ hk => ?_) ?_ hsome
  · rw [hpage, pageAt, pageAt]
    omega
  · have hv : u32 (base + 4096 * (l / 4096)) < 2 ^ 32 := Nat.mod_lt _ (by norm_num)
    exact (inWindow_congr hv hw (hpage.trans (page_u32 ..).symm)).not.mpr (hwin _ le_rfl)

lemma byte_page {k : ℕ} (hb : base % 4096 = 0) (hv : v = u32 (base + phys % 4096)) :
    u32 (v + k) / 4096 = pageAt base ((phys % 4096 + k) / 4096) ∧ u32 (v + k) % 4096 = (phys + k) % 4096 := by
  rw [hv, pageAt, u32, u32]
  omega

lemma behind_page (hmod : length % 4096 = 0) :
    u32 (base + length) < 2 ^ 32 ∧ u32 (base + length) / 4096 = pageAt base (length / 4096) := by
  refine ⟨Nat.mod_lt _ (by norm_num), ?_⟩
  rw [← page_u32, Nat.mul_div_cancel' (Nat.dvd_of_mod_eq_zero hmod)]

lemma RangeMapped.byteAt {p q : Paging} {k : ℕ} (h : RangeMapped pae p q base (bytePgroundup length) phys)
    (hlen : length ≤ 0xFFFFF000) (hv : v = u32 (base + phys % 4096)) (hc : Covers pae p base length phys) (hk : k < length) :
    q.byteAt pae (u32 (v + k)) = some (phys + k) := by
  obtain ⟨hb, h32, hfit⟩ := hc
  obtain ⟨hmod, hle, hmax⟩ := bytePgroundup_bounds hlen
  obtain ⟨hlt, hbase⟩ := (behind_page hmod : u32 (base + bytePgroundup length) < 2 ^ 32 ∧ _)
  obtain ⟨hpage, hoff⟩ := byte_page (k := k) hb hv
  have hw : u32 (v + k) < 2 ^ 32 := Nat.mod_lt _ (by norm_num)
  have harg : physArg pae (pageOf (phys + k)) = pageOf (phys + k) := by
    rcases h32 with rfl | h32
    · rfl
    · cases pae
      · exact u32_eq ((Nat.sub_le ..).trans_lt (show phys + k < 2 ^ 32 by omega))
      · rfl
  have hbyte : q.frameAt pae (u32 (v + k)) = some (pageOf (phys + k) / 4096) := by
    by_cases hj : (phys % 4096 + k) / 4096 < bytePgroundup length / 4096
    · have hphysk : pageOf phys + 4096 * ((phys % 4096 + k) / 4096) = pageOf (phys + k) := by
        rw [pageOf, pageOf]
        omega
      rw [h.inside _ hj _ hw hpage, hphysk, harg]
    · -- the byte is in the page behind the range
      have hlast : (phys % 4096 + k) / 4096 = bytePgroundup length / 4096 := by omega
      rw [hlast] at hpage
      obtain ⟨f, hf', hbyte⟩ := Option.map_eq_some_iff.mp (hfit.resolve_left (by omega))
      have hbehind : p.frameAt pae (u32 (v + k)) = some f := by
        refine (frameAt_congr hlt hw ?_).trans hf'
        rw [hpage, hbase]
      have hfk : f = pageOf (phys + k) / 4096 := by
        rw [u32] at hbyte
        rw [pageOf] at hbyte ⊢
        omega
      rw [h.behind _ hw hpage (.inr (by simp [hbehind])), hbehind, hfk]
  rw [Paging.byteAt, hbyte, Option.map_some, hoff, pageOf]
  exact congrArg some (by omega)

lemma RangeMapped.covers {p q : Paging} (h : RangeMapped true p q base (bytePgroundup length) phys) (hpos : 0 < length)
    (hlen : length ≤ 0xFFFFF000) (hv : v = u32 (base + phys % 4096))
    (hall : ∀ k < length, q.byteAt true (u32 (v + k)) = some (phys + k)) : Covers true p base length phys := by
  obtain ⟨hmod, hle, hmax⟩ := bytePgroundup_bounds hlen
  obtain ⟨f, -, h0⟩ := Option.map_eq_some_iff.mp (hall 0 hpos)
  have hb : base % 4096 = 0 := by
    rw [hv, Nat.add_zero, u32_u32, u32] at h0
    omega
  refine ⟨hb, .inl rfl, ?_⟩
  by_cases hfit : phys % 4096 + length ≤ bytePgroundup length
  · exact .inl hfit
  · obtain ⟨hlt, hbase⟩ := (behind_page hmod : u32 (base + bytePgroundup length) < 2 ^ 32 ∧ _)
    have hk := hall (bytePgroundup length - phys % 4096) (by omega)
    have haddr : u32 (v + (bytePgroundup length - phys % 4096)) = u32 (base + bytePgroundup length) := by
      rw [hv, u32, u32, u32]
      omega
    rw [haddr, Paging.byteAt, h.behind _ hlt hbase (.inl rfl)] at hk
    refine .inr (hk.trans (congrArg some ?_))
    rw [pageOf]
    omega

/-- A range is mapped to the physical bytes asked for if the pages cover them, and with PAE only then. -/
theorem vmmPageAlloc_maps (hpos : 0 < length) (hlen : length ≤ 0xFFFFF000) (hphys : phys ≠ 0) (hf : flags < 4096)
    (hpres : Present flags) (hs : s.paging.Ready pae (s.vmms cvmm).rootPd)
    (hr : vmmTakeRange fuel s cvmm (bytePgroundup length) = .ok (some base, u))
    (hwin : ∀ k ≤ bytePgroundup length / 4096, ¬ InWindow pae (u32 (base + 4096 * k)))
    (ha : vmmPageAlloc fuel s cvmm length flags phys pae = .ok (v, t)) :
    (Covers pae s.paging base length phys → ∀ k < length, t.paging.byteAt pae (u32 (v + k)) = some (phys + k)) ∧
      (pae = true → (∀ k < length, t.paging.byteAt pae (u32 (v + k)) = some (phys + k)) → Covers pae s.paging base length phys) := by
  obtain ⟨hv, hmapped⟩ := vmmPageAlloc_pages hlen hphys hf hpres hs hr hwin ha
  constructor
  · intro hc k hk
    exact hmapped.byteAt hlen hv hc hk
  · rintro rfl hall
    exact hmapped.covers hpos hlen hv hall

/-- The VMM at 0x1000 has one range, in the part of memory of a directory without tables. -/
def onePdVmm : VmmState where
  nodes := fun p => if p = 0x1060 then ⟨0, 0xCC000000, 0x10000, 3, .black, 0, 0, 0⟩ else blankNode
  vmms := fun _ => ⟨1, 0, 0, 0, 0x1060, 0x1030, 0xCC000000, 0xFFE00000⟩
  kernelVmm := 0x1000
  paging := Paging.onePd

lemma onePd_ready : Paging.onePd.Ready true 1 := by
  refine ⟨Paging.onePd_recursive, by decide, ⟨0xF01, by decide, by decide, by decide, by decide⟩, fun f _ _ => ⟨fun i hi => ?_, fun i j hij => ?_⟩⟩
  · rw [Paging.onePd_directory] at hi
    split_ifs at hi
    exact absurd (Option.some.inj hi) (by omega)
  · change Paging.onePd.table i j = _ at hij
    rw [Paging.onePd_table] at hij
    split_ifs at hij
    exact absurd (Option.some.inj hij) (by omega)

lemma onePdVmm_take (hl : bytePgroundup length = 4096) :
    ∃ u, vmmTakeRange 3 onePdVmm 0x1000 (bytePgroundup length) = .ok (some 0xCC000000, u) := by
  rw [hl]
  obtain ⟨⟨o, u⟩, h, ho⟩ := exists_of_toOption_map (x := vmmTakeRange 3 onePdVmm 0x1000 4096) (g := Prod.fst)
    (c := some 0xCC000000) (by decide)
  obtain rfl : o = some 0xCC000000 := ho
  exact ⟨u, h⟩

lemma onePdVmm_window (hl : bytePgroundup length = 4096) :
    ∀ k ≤ bytePgroundup length / 4096, ¬ InWindow true (u32 (0xCC000000 + 4096 * k)) := by
  rw [hl]
  intro k hk
  change pdIndexOf (u32 (0xCC000000 + 4096 * k)) ≠ 511
  interval_cases k
  · decide
  · decide

lemma onePdVmm_alloc (hl : bytePgroundup length = 4096) (hlt : length < 2 ^ 32) (h0 : phys ≠ 0) (hp : phys < 2 ^ 36) :
    ∃ t, vmmPageAlloc 3 onePdVmm 0x1000 length 3 phys true = .ok (u32 (0xCC000000 + phys % 4096), t) := by
  obtain ⟨u, hu⟩ := onePdVmm_take hl
  obtain ⟨hpaging, -⟩ := vmmTakeRange_frame (w := 0) hu
  have hle := Nat.sub_le phys (phys % 4096)
  have hpage : pageOf phys < 2 ^ 36 := hle.trans_lt hp
  have ha : pageOf phys % 2 ^ 10 = 0 := by
    rw [pageOf]
    omega
  obtain ⟨p, hm, -⟩ : ∃ p, paeMmap Paging.onePd (pageOf phys) 0xCC000000 3 = .ok p ∧ _ := Paging.paeMmap_ok Paging.onePd_recursive (by decide) (by decide)
    hpage ha (Nat.or_lt_two_pow (hpage.trans (by norm_num)) (by norm_num)) fun _ => Paging.onePd_alloc
  refine ⟨{ u with paging := p }, ?_⟩
  rw [vmmPageAlloc, u32_eq hlt, hu, ok_bind, hl]
  have hmap : mapPages (u.vmms 0x1000).rootPd 0xCC000000 phys 3 true (4096 / 4096) 0 u.paging = .ok p := by
    rw [hpaging, show 4096 / 4096 = 0 + 1 from rfl, mapPages, if_neg h0]
    simp only [pure_eq, ok_bind, if_true, Nat.add_zero]
    rw [show u32 0xCC000000 = 0xCC000000 from rfl, show onePdVmm.paging = Paging.onePd from rfl, hm]
    rfl
  simp only [hmap, ok_bind, pure_eq]

theorem vmmPageAlloc_maps_page : ∃ t, vmmPageAlloc 3 onePdVmm 0x1000 4096 3 0x5000 true = .ok (0xCC000000, t) ∧
    ∀ k < 4096, t.paging.byteAt true (u32 (0xCC000000 + k)) = some (0x5000 + k) := by
  have hne : (0x5000 : ℕ) ≠ 0 := by norm_num
  have hl : bytePgroundup 4096 = 4096 := by decide
  obtain ⟨u, hu⟩ := onePdVmm_take hl
  obtain ⟨t, ht⟩ := onePdVmm_alloc hl (by norm_num) hne (by norm_num)
  have hcovers : Covers true onePdVmm.paging 0xCC000000 4096 0x5000 := ⟨by decide, .inl rfl, .inl (by decide)⟩
  have hmaps := vmmPageAlloc_maps (s := onePdVmm) (by decide) (by decide) hne (by decide) (by decide) onePd_ready hu (onePdVmm_window hl) ht
  exact ⟨t, ht, hmaps.1 hcovers⟩

/-- Two bytes on both sides of a page boundary: the second one is not mapped. -/
theorem vmmPageAlloc_maps_boundary : Paging.onePd.Ready true 1 ∧
    ∃ t, vmmPageAlloc 3 onePdVmm 0x1000 2 3 0x5FFF true = .ok (0xCC000FFF, t) ∧ t.paging.byteAt true (u32 (0xCC000FFF + 1)) = none := by
  have hne : (0x5FFF : ℕ) ≠ 0 := by norm_num
  have hl : bytePgroundup 2 = 4096 := by decide
  obtain ⟨u, hu⟩ := onePdVmm_take hl
  obtain ⟨t, ht⟩ := onePdVmm_alloc hl (by norm_num) hne (by norm_num)
  obtain ⟨-, -, hout⟩ := vmmPageAlloc_pages (s := onePdVmm) (by decide) hne (by decide) (by decide) onePd_ready hu (onePdVmm_window hl) ht
  refine ⟨onePd_ready, t, ht, ?_⟩
  rw [Paging.byteAt, hout _ (by decide) (by decide) (.inl rfl)]
  decide

end WordOS.Memory
