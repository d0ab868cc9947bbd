import WordOS.Memory.NewPdptes
import WordOS.Memory.PaeAccess
import WordOS.Memory.PageRange

/-! What `create_new_pdptes` leaves in the page directories of a process, by what their frames held before. -/

namespace WordOS.Memory

open Machine Lib

namespace Paging

variable {s t u : Paging} {pmm : Pmm} {clear : Bool} {virt phys flags v x f g i j k n p : ℕ}

lemma clear64_phys (h : s.clear64 v n = .ok t) : t = { s with phys := t.phys } := by
  induction n generalizing s v with
  | zero =>
    obtain rfl := Except.ok.inj h
    rfl
  | succ n ih =>
    obtain ⟨u, hu, h⟩ := bind_eq_ok.mp h
    rw [ih h, store64_phys hu]

lemma createNewPaePt_maxBits (h : createNewPaePt s i j x = .ok t) : t.maxBitExtension = s.maxBitExtension := by
  by_cases hp : ¬ Present (s.pdpt i)
  · rw [createNewPaePt, if_pos hp] at h
    cases h
  rw [createNewPaePt, if_neg hp] at h
  obtain ⟨⟨p, pmm⟩, -, h⟩ := bind_eq_ok.mp h
  obtain ⟨u, hu, h⟩ := bind_eq_ok.mp h
  rw [clear64_phys h, store64_phys hu]

lemma paeMmap_maxBits (h : paeMmap s phys virt flags = .ok t) : t.maxBitExtension = s.maxBitExtension := by
  rw [paeMmap] at h
  dsimp only at h
  by_cases hbits : phys / 2 ^ s.maxBitExtension ≠ 0
  · rw [if_pos hbits] at h
    cases h
  by_cases halign : phys % 2 ^ 10 ≠ 0
  · rw [if_neg hbits, if_pos halign] at h
    cases h
  rw [if_neg hbits, if_neg halign] at h
  obtain ⟨e, -, h⟩ := bind_eq_ok.mp h
  obtain ⟨u, hu, h⟩ := ite_bind_eq_ok h
  obtain ⟨w, hw, h⟩ := bind_eq_ok.mp h
  rw [store64_phys h, store64_phys hw]
  split_ifs at hu
  · obtain rfl := Except.ok.inj hu
    rfl
  · exact (createNewPaePt_maxBits hu :)

lemma Touches.parked (h : Touches s f t) (hf : s.Unused f) (hg : s.Parked g) : t.Parked g :=
  ⟨h.unused hf hg.unused, h.pmm ▸ hg.taken⟩

/-- What `mapPd` leaves in the frame `g` of a directory, and in frames that are put aside. -/
structure Fills (s : Paging) (clear : Bool) (g : ℕ) (t : Paging) : Prop where
  ready : t.PaeReady
  pdpt : t.pdpt = s.pdpt
  maxBits : t.maxBitExtension = s.maxBitExtension
  numFrames : t.pmm.numFrames = s.pmm.numFrames
  exists_table : ∃ f, t.table 3 504 = some f
  blank : ∀ k < 511, t.entries64 g k = if clear then 0 else s.entries64 g k
  self : t.entries64 g 511 = 4096 * g ||| 1
  parked : ∀ f, s.Parked f → t.Parked f
  others : ∀ f, s.Parked f → f ≠ g → ∀ k, t.entries64 f k = s.entries64 f k

lemma mapPd_bind : mapPd s clear p = paeMmap s p TEMP_PAGE_VIRT 0x3 >>= fun u =>
    (if clear then u.clear64 TEMP_PAGE_VIRT (4096 / 8) else .ok u) >>= fun w =>
      w.store64 (TEMP_PAGE_VIRT + 8 * 511) (p ||| 1) := by
  cases clear <;> rfl

lemma mapPd_fills (clear : Bool) (hs : s.PaeReady) (hg : s.Parked g) (hu : paeMmap s (4096 * g) TEMP_PAGE_VIRT 0x3 = .ok u) :
    ∃ t, mapPd s clear (4096 * g) = .ok t ∧ Fills s clear g t := by
  obtain ⟨hready, hmaps, hlt, -, -, hparked⟩ := hs.paeMmap (by decide) (by norm_num) hu
  obtain ⟨hgu, hold⟩ := hparked g hg
  have hwalk : u.walk64 TEMP_PAGE_VIRT = some g := by
    have := walk64_of_maps (w := TEMP_PAGE_VIRT) hmaps (by decide) (by omega) hlt (by norm_num) (by decide) (by decide) rfl
    rwa [Nat.mul_div_cancel_left _ (by norm_num)] at this
  have hopens : Opens u TEMP_PAGE_VIRT g := ⟨hready.recursive, hgu.unused, ⟨by decide, by decide⟩, hwalk⟩
  obtain ⟨w, hw, htouch, hblank⟩ : ∃ w, (if clear then u.clear64 TEMP_PAGE_VIRT (4096 / 8) else .ok u) = .ok w ∧
      Touches u g w ∧ ∀ k < 511, w.entries64 g k = if clear then 0 else u.entries64 g k := by
    cases clear with
    | true =>
      obtain ⟨w, hw, htouch, -, hin⟩ := hopens.clear64 (k := 0) (n := 512) (by norm_num)
      exact ⟨w, hw, htouch, fun k hk => hin k (Nat.zero_le k) (by omega)⟩
    | false => exact ⟨u, rfl, .refl u g, fun k _ => rfl⟩
  obtain ⟨t, ht, htouch', hself, hother⟩ := (htouch.opens hopens).store64 (k := 511) (x := 4096 * g ||| 1) (by norm_num)
    (Nat.or_lt_two_pow (hlt.trans (by norm_num)) (by norm_num))
  have hboth := htouch.trans htouch'
  refine ⟨t, ?_, hboth.ready hgu.unused hready, hboth.pdpt.trans hmaps.pdpt, hboth.maxBitExtension.trans (paeMmap_maxBits hu), ?_,
    ?_, fun k hk => ?_, hself, fun f hf => hboth.parked hgu.unused (hparked f hf).1, fun f hf hne k => ?_⟩
  · rw [mapPd_bind, hu, ok_bind, hw, ok_bind]
    exact ht
  · rw [hboth.pmm, hmaps.numFrames]
  · obtain ⟨f, hf, -⟩ := hmaps.exists_table
    exact ⟨f, (hboth.table hgu.unused ..).trans hf⟩
  · rw [hother k (by omega), hblank k hk, hold k]
  · exact (hboth.entries64 f k hne).trans ((hparked f hf).2 k)

lemma mapPd_ok (hs : s.PaeReady) (hg : s.Parked g) (hm : mapPd s clear (4096 * g) = .ok t) : Fills s clear g t := by
  obtain ⟨u, hu, -⟩ := bind_eq_ok.mp hm
  obtain ⟨t', ht', hfills⟩ := mapPd_fills clear hs hg hu
  obtain rfl := Except.ok.inj (ht'.symm.trans hm)
  exact hfills

lemma mapPds_bind {low mid high : ℕ} : mapPds s low mid high = mapPd s true low >>= fun t => mapPd t true mid >>= fun t =>
    mapPd t false high >>= fun t => paeUnmap t TEMP_PAGE_VIRT := rfl

lemma paeUnmap_parked (hs : s.PaeReady) (ht : s.table 3 504 = some f) (hu : paeUnmap s TEMP_PAGE_VIRT = .ok t) :
    ∀ g, s.Parked g → ∀ k, t.entries64 g k = s.entries64 g k := by
  intro g hg k
  obtain ⟨x, -, hu⟩ := bind_eq_ok.mp hu
  obtain ⟨pmm, -, hu⟩ := bind_eq_ok.mp hu
  have hst := store64_window (s := { s with pmm := pmm }) (x := 0) hs.recursive ht (k := 0) (by norm_num)
  obtain rfl := Except.ok.inj (hst.symm.trans hu)
  exact entries64_setEntry fun hf => absurd (hf ▸ ht) (hg.unused.not_table 3 504)

/-- The three directories of a process, by what the frame of the third one held. -/
structure FillsAll (s : Paging) (low mid high : ℕ) (t : Paging) : Prop where
  low_blank : ∀ k < 511, t.entries64 low k = 0
  low_self : t.entries64 low 511 = 4096 * low ||| 1
  mid_blank : ∀ k < 511, t.entries64 mid k = 0
  mid_self : t.entries64 mid 511 = 4096 * mid ||| 1
  high_stale : ∀ k < 511, t.entries64 high k = s.entries64 high k
  high_self : t.entries64 high 511 = 4096 * high ||| 1

lemma mapPds_ok {low mid high : ℕ} (hs : s.PaeReady) (hl : s.Parked low) (hm : s.Parked mid) (hh : s.Parked high)
    (hlm : low ≠ mid) (hlh : low ≠ high) (hmh : mid ≠ high)
    (h : mapPds s (4096 * low) (4096 * mid) (4096 * high) = .ok t) : FillsAll s low mid high t := by
  rw [mapPds_bind] at h
  obtain ⟨s₁, h₁, h⟩ := bind_eq_ok.mp h
  obtain ⟨s₂, h₂, h⟩ := bind_eq_ok.mp h
  obtain ⟨s₃, h₃, h⟩ := bind_eq_ok.mp h
  have f₁ := mapPd_ok hs hl h₁
  have f₂ := mapPd_ok f₁.ready (f₁.parked _ hm) h₂
  have f₃ := mapPd_ok f₂.ready (f₂.parked _ (f₁.parked _ hh)) h₃
  have hl₁ := f₁.parked _ hl
  have hm₂ := f₂.parked _ (f₁.parked _ hm)
  have hh₂ := f₂.parked _ (f₁.parked _ hh)
  obtain ⟨f, hf⟩ := f₃.exists_table
  have hlast := paeUnmap_parked f₃.ready hf h
  refine ⟨fun k hk => ?_, ?_, fun k hk => ?_, ?_, fun k hk => ?_, ?_⟩
  · rw [hlast low (f₃.parked _ (f₂.parked _ hl₁)), f₃.others low (f₂.parked _ hl₁) hlh, f₂.others low hl₁ hlm]
    exact f₁.blank k hk
  · rw [hlast low (f₃.parked _ (f₂.parked _ hl₁)), f₃.others low (f₂.parked _ hl₁) hlh, f₂.others low hl₁ hlm]
    exact f₁.self
  · rw [hlast mid (f₃.parked _ hm₂), f₃.others mid hm₂ hmh]
    exact f₂.blank k hk
  · rw [hlast mid (f₃.parked _ hm₂), f₃.others mid hm₂ hmh]
    exact f₂.self
  · rw [hlast high (f₃.parked _ hh₂)]
    refine (f₃.blank k hk).trans ?_
    rw [if_neg Bool.false_ne_true, f₂.others high (f₁.parked _ hh) hmh.symm, f₁.others high hh hlh.symm]
  · rw [hlast high (f₃.parked _ hh₂)]
    exact f₃.self

/-- The page at `TEMP_PAGE_VIRT` has a table, and the page directories can be mapped there. -/
structure Mappable (s : Paging) (f : ℕ) : Prop where
  present : Present (s.pdpt 3)
  table : ∃ e, s.table 3 504 = some e
  bits : 4096 * f < 2 ^ s.maxBitExtension

lemma Fills.mappable (h : Fills s clear g t) (hm : s.Mappable f) : t.Mappable f :=
  ⟨h.pdpt ▸ hm.present, h.exists_table, h.maxBits ▸ hm.bits⟩

lemma mapPd_total (clear : Bool) (hs : s.PaeReady) (hg : s.Parked g) (hm : s.Mappable g) :
    ∃ t, mapPd s clear (4096 * g) = .ok t ∧ Fills s clear g t := by
  have hlt : 4096 * g < 2 ^ 52 := hm.bits.trans_le (Nat.pow_le_pow_right (by norm_num) hs.bits)
  obtain ⟨e, he⟩ := hm.table
  obtain ⟨u, hu, -⟩ : ∃ u, paeMmap s (4096 * g) TEMP_PAGE_VIRT 0x3 = .ok u ∧ _ := paeMmap_ok hs.recursive hm.present (by decide) hm.bits
    (by omega) (Nat.or_lt_two_pow (hlt.trans (by norm_num)) (by norm_num)) fun hnone => absurd (he.symm.trans hnone) (by simp)
  exact mapPd_fills clear hs hg hu

lemma mapPds_total {low mid high : ℕ} (hs : s.PaeReady) (hn : 4 ≤ s.pmm.numFrames)
    (h : ∀ f ∈ [low, mid, high], s.Parked f ∧ s.Mappable f) : ∃ t, mapPds s (4096 * low) (4096 * mid) (4096 * high) = .ok t := by
  simp only [List.forall_mem_cons, List.not_mem_nil, IsEmpty.forall_iff, implies_true, and_true] at h
  obtain ⟨⟨hl, hl'⟩, ⟨hm, hm'⟩, hh, hh'⟩ := h
  obtain ⟨s₁, h₁, f₁⟩ := mapPd_total true hs hl hl'
  obtain ⟨s₂, h₂, f₂⟩ := mapPd_total true f₁.ready (f₁.parked _ hm) (f₁.mappable hm')
  obtain ⟨s₃, h₃, f₃⟩ := mapPd_total false f₂.ready (f₂.parked _ (f₁.parked _ hh)) (f₂.mappable (f₁.mappable hh'))
  obtain ⟨e, he⟩ := f₃.exists_table
  have hn₃ : 4 ≤ s₃.pmm.numFrames := by rwa [f₃.numFrames, f₂.numFrames, f₁.numFrames]
  obtain ⟨t, ht, -⟩ : ∃ t, paeUnmap s₃ TEMP_PAGE_VIRT = .ok t ∧ _ := paeUnmap_ok f₃.ready.recursive (by decide) hn₃ he
  refine ⟨t, ?_⟩
  rw [mapPds_bind, h₁, ok_bind, h₂, ok_bind, h₃, ok_bind, ht]

lemma mapPd_only : mapPd (s.only 3) clear p = (mapPd s clear p).map (only 3) := by
  have hi : TEMP_PAGE_VIRT / 2 ^ 30 = 3 := by decide
  rw [mapPd_bind, mapPd_bind, paeMmap_only (by decide)]
  refine map_only_bind fun u => ?_
  have hclear : (if clear then (u.only 3).clear64 TEMP_PAGE_VIRT (4096 / 8) else .ok (u.only 3)) =
      (if clear then u.clear64 TEMP_PAGE_VIRT (4096 / 8) else .ok u : Exec Paging).map (only 3) := by
    cases clear with
    | true => exact clear64_only (by decide) (by decide)
    | false => rfl
  rw [hclear]
  exact map_only_bind fun w => store64_only (by decide)

lemma mapPds_only {low mid high : ℕ} : mapPds (s.only 3) low mid high = (mapPds s low mid high).map (only 3) := by
  rw [mapPds_bind, mapPds_bind, mapPd_only]
  refine map_only_bind fun s₁ => ?_
  rw [mapPd_only]
  refine map_only_bind fun s₂ => ?_
  rw [mapPd_only]
  exact map_only_bind fun s₃ => paeUnmap_only (by decide)

end Paging

end WordOS.Memory
