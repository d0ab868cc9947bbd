import WordOS.Memory.PdTables

/-! What `memory_map` does to the translation of the other pages. -/

namespace WordOS.Memory

open Machine Lib

namespace Paging

variable {s t : Paging} {pmm : Pmm} {virt phys flags v x f g j k n p : ℕ}

/-- After `memory_map` the page of `virt` lies at `phys`, and every other page outside the windows of the directory is
where it was. -/
structure MapsOnly (s : Paging) (virt phys : ℕ) (t : Paging) : Prop where
  cr3 : t.cr3 = s.cr3
  page : ∀ v < 2 ^ 32, v / 4096 = virt / 4096 → t.walk32 v = some (phys / 4096)
  others : ∀ v < 2 ^ 32, v / 4096 ≠ virt / 4096 → s.table32 (pdOf v) ≠ some s.cr3 → t.walk32 v = s.walk32 v

lemma page_eq (hv : v < 2 ^ 32) (hw : virt < 2 ^ 32) : v / 4096 = virt / 4096 ↔ pdOf v = pdOf virt ∧ ptOf v = ptOf virt := by
  simp only [pdOf, ptOf, u32_eq hv, u32_eq hw]
  omega

lemma exists_page (hj : j < 1024) (hk : k < 1024) : ∃ v < 2 ^ 32, pdOf v = j ∧ ptOf v = k := by
  have hlt : j * 2 ^ 22 + k * 2 ^ 12 < 2 ^ 32 := by omega
  refine ⟨j * 2 ^ 22 + k * 2 ^ 12, hlt, ?_, ?_⟩
  · rw [pdOf, u32_eq hlt]
    omega
  · rw [ptOf, u32_eq hlt]
    omega

lemma table32_setWord (hf : f ≠ s.cr3) (j : ℕ) : (s.setWord f k x).table32 j = s.table32 j :=
  PageTables.table_congr fun _ hd => entries32_setWord fun h => absurd (h.symm.trans (Option.some.inj hd).symm) hf

lemma clear32_self (hself : s.table32 1023 = some s.cr3) (ht : s.table32 j = some f) (hf : f ≠ s.cr3) (hn : k + n ≤ 1024) :
    ∃ m, s.clear32 (RECURSIVE_ADDR + j * 4096 + 4 * k) n = .ok { s with phys := m } ∧
      ∀ g i, m g i = if g = f ∧ k ≤ i ∧ i < k + n then 0 else s.phys g i := by
  induction n generalizing s k with
  | zero => exact ⟨s.phys, rfl, fun g i => (if_neg (by omega)).symm⟩
  | succ n ih =>
    have htab := table32_setWord (s := s) (k := k) (x := 0) hf
    obtain ⟨m, hm, hm'⟩ := ih (s := s.setWord f k 0) ((htab 1023).trans hself) ((htab j).trans ht) hf (show k + 1 + n ≤ 1024 by omega)
    refine ⟨m, ?_, fun g i => ?_⟩
    · rw [clear32, store32_self hself ht (by omega), ok_bind]
      exact hm
    · rw [hm']
      by_cases hgi : g = f ∧ i = k
      · obtain ⟨rfl, rfl⟩ := hgi
        rw [if_neg (by omega), if_pos (by omega), phys_setWord_self]
        rfl
      · rw [phys_setWord fun hg hi => hgi ⟨hg, hi⟩]
        exact if_congr (by omega) rfl rfl

/-- The state after `memory_map` has made the table of `virt` in frame `f`: the rest of the frame is as it was. -/
structure Creates (s : Paging) (virt e f : ℕ) (t : Paging) : Prop where
  cr3 : t.cr3 = s.cr3
  table : t.table32 (pdOf virt) = some f
  tables : ∀ j, j ≠ pdOf virt → t.table32 j = s.table32 j
  entry : t.phys f (ptOf virt) = e
  cleared : ∀ k < 256, k ≠ ptOf virt → t.phys f k = 0
  rest : ∀ k, 256 ≤ k → k ≠ ptOf virt → t.phys f k = s.phys f k
  frames : ∀ g k, g ≠ f → g ≠ s.cr3 → t.phys g k = s.phys g k

lemma allocPhysPage_aligned {s pmm : Pmm} (h : allocPhysPage s = .ok (p, pmm)) : p % 4096 = 0 ∧ p < 2 ^ 32 := by
  obtain ⟨r, -, h⟩ := bind_eq_ok.mp h
  cases r with
  | none =>
    obtain ⟨rfl, -⟩ := Prod.mk.inj (Except.ok.inj h)
    exact ⟨rfl, by norm_num⟩
  | some i =>
    obtain ⟨u, -, h⟩ := bind_eq_ok.mp h
    have hp : frameToPhysical i = p := by
      dsimp only at h
      split_ifs at h
      · cases h
      · exact (Prod.mk.inj (Except.ok.inj h)).1
    rw [← hp, frameToPhysical, u32]
    omega

lemma memoryMap_creates (flags : ℕ) (hself : s.table32 1023 = some s.cr3) (hnone : s.table32 (pdOf virt) = none)
    (ha : phys % 4096 = 0) (hp : phys < 2 ^ 32) (halloc : allocPhysPage s.pmm = .ok (p, pmm))
    (hfree : ∀ j, s.table32 j ≠ some (p / 4096)) :
    ∃ t, memoryMap s s.cr3 phys virt flags = .ok t ∧ Creates s virt (u32 (u32 phys ||| flags)) (p / 4096) t := by
  have hlt := pdOf_lt virt
  have hj : pdOf virt ≠ 1023 := by
    intro h
    rw [h, hself] at hnone
    cases hnone
  have hne : p / 4096 ≠ s.cr3 := fun h => hfree 1023 (h ▸ hself)
  obtain ⟨hpa, hplt⟩ := allocPhysPage_aligned halloc
  -- the directory names the new table
  set s₁ := { s with pmm := pmm }.setWord s.cr3 (pdOf virt) (u32 p ||| 3) with hs₁
  have htab₁ : s₁.table32 (pdOf virt) = some (p / 4096) := by
    rw [table32_eq hlt]
    change target (({ s with pmm := pmm }.setWord s.cr3 (pdOf virt) (u32 p ||| 3)).phys s.cr3 (pdOf virt)) = _
    rw [phys_setWord_self]
    exact target_entry hpa hplt (by norm_num) rfl
  have htabs₁ : ∀ j, j ≠ pdOf virt → s₁.table32 j = s.table32 j := fun j hj' =>
    PageTables.table_congr fun _ hd => entries32_setWord fun _ => hj'
  have hself₁ : s₁.table32 1023 = some s₁.cr3 := (htabs₁ 1023 hj.symm).trans hself
  obtain ⟨m, hm, hmem⟩ := clear32_self hself₁ htab₁ hne (show 0 + 256 ≤ 1024 by norm_num)
  set s₂ : Paging := { s₁ with phys := m } with hs₂
  have hold : ∀ g k, g ≠ p / 4096 → s₂.phys g k = s₁.phys g k := fun g k hg => (hmem g k).trans (if_neg fun h => hg h.1)
  have htabs₂ : ∀ j, s₂.table32 j = s₁.table32 j := fun j =>
    PageTables.table_congr fun d hd => by
      obtain rfl := Option.some.inj hd
      rw [entries32, entries32, hold s₂.cr3 j hne.symm]
  have hcreate : createNewPt s s.cr3 (pdOf virt) RECURSIVE_ADDR = .ok s₂ := by
    have hw := window32 hlt
    rw [Nat.mul_zero, Nat.add_zero, ← hw] at hm
    rw [createNewPt, halloc, ok_bind]
    exact hm
  have hnp : ¬ Present (s.phys s.cr3 (pdOf virt)) := by
    intro h
    rw [table32_eq hlt, target_of_present h] at hnone
    cases hnone
  have hstore := store32_self (x := u32 phys ||| flags) ((htabs₂ 1023).trans hself₁) ((htabs₂ _).trans htab₁) (ptOf_lt virt)
  have hne₂ : p / 4096 ≠ s₂.cr3 := hne
  have haligned : ¬ u32 phys % 2 ^ 10 ≠ 0 := by
    rw [u32_eq hp]
    omega
  refine ⟨s₂.setWord (p / 4096) (ptOf virt) (u32 phys ||| flags), ?_, ?_⟩
  · rw [pdOf] at hnp hcreate hstore
    rw [memoryMap]
    simp only [if_neg hnp, hcreate, ok_bind, if_neg haligned]
    exact hstore
  · refine ⟨rfl, ?_, fun j hj' => ?_, phys_setWord_self, fun k hk hkv => ?_, fun k hk hkv => ?_, fun g k hg hd => ?_⟩
    · rw [table32_setWord hne₂, htabs₂, htab₁]
    · rw [table32_setWord hne₂, htabs₂, htabs₁ j hj']
    · rw [phys_setWord fun _ => hkv]
      exact (hmem _ k).trans (if_pos ⟨rfl, Nat.zero_le k, by omega⟩)
    · rw [phys_setWord fun _ => hkv]
      exact ((hmem _ k).trans (if_neg (by omega))).trans (phys_setWord fun h => absurd h hne)
    · rw [phys_setWord fun h => absurd h hg, hold g k hg]
      exact phys_setWord fun h => absurd h hd

lemma Creates.mapsOnly_iff {e : ℕ} (h : Creates s virt e f t) (hv : virt < 2 ^ 32) (hnone : s.table32 (pdOf virt) = none)
    (hfree : ∀ j, s.table32 j ≠ some f) (he : target e = some (phys / 4096)) :
    MapsOnly s virt phys t ↔ ∀ k, 256 ≤ k → k < 1024 → k ≠ ptOf virt → ¬ Present (s.phys f k) := by
  constructor
  · intro hmaps k hk hlt hkv hpresent
    obtain ⟨v, hvlt, hvpd, hvpt⟩ := exists_page (pdOf_lt virt) hlt
    have hne : ¬ v / 4096 = virt / 4096 := by
      rw [page_eq hvlt hv, hvpt]
      exact fun h => hkv h.2
    have hold := hmaps.others v hvlt hne (by rw [hvpd, hnone]; exact (Option.some_ne_none _).symm)
    rw [walk32_bind hvlt, walk32_bind hvlt, hvpd, hvpt, h.table, hnone, Option.bind_some, Option.bind_none, h.rest k hk hkv,
      target_of_present hpresent] at hold
    cases hold
  · intro hcond
    refine ⟨h.cr3, fun v hvlt hpage => ?_, fun v hvlt hpage hwin => ?_⟩
    · obtain ⟨hpd, hpt⟩ := (page_eq hvlt hv).mp hpage
      rw [walk32_bind hvlt, hpd, hpt, h.table, Option.bind_some, h.entry, he]
    · rw [walk32_bind hvlt, walk32_bind hvlt]
      by_cases hpd : pdOf v = pdOf virt
      · -- another page of the new table
        have hpt : ptOf v ≠ ptOf virt := fun hpt => hpage ((page_eq hvlt hv).mpr ⟨hpd, hpt⟩)
        rw [hpd, h.table, hnone, Option.bind_some, Option.bind_none]
        by_cases hk : ptOf v < 256
        · rw [h.cleared _ hk hpt]
          rfl
        · rw [h.rest _ (not_lt.mp hk) hpt]
          exact target_of_not_present (hcond _ (not_lt.mp hk) (ptOf_lt v) hpt)
      · rw [h.tables _ hpd]
        cases htab : s.table32 (pdOf v) with
        | none => rfl
        | some g =>
          rw [htab] at hwin
          have hgf : g ≠ f := fun hg => hfree (pdOf v) (hg ▸ htab)
          rw [Option.bind_some, Option.bind_some, h.frames g _ hgf fun hg => hwin (congrArg some hg)]

lemma setWord_mapsOnly_iff (hv : virt < 2 ^ 32) (ht : s.table32 (pdOf virt) = some f) (hf : f ≠ s.cr3)
    (hx : target (u32 x) = some (phys / 4096)) :
    MapsOnly s virt phys (s.setWord f (ptOf virt) x) ↔
      (∀ j, j ≠ pdOf virt → s.table32 j ≠ some f) ∨ target (s.phys f (ptOf virt)) = some (phys / 4096) := by
  have htabs := table32_setWord (s := s) (k := ptOf virt) (x := x) hf
  constructor
  · intro hmaps
    by_contra hno
    obtain ⟨hshared, hother⟩ := not_or.mp hno
    obtain ⟨j, hj⟩ := not_forall.mp hshared
    obtain ⟨hne, hj⟩ := Classical.not_imp.mp hj
    rw [not_not] at hj
    obtain ⟨v, hvlt, hvpd, hvpt⟩ := exists_page (table32_lt hj) (ptOf_lt virt)
    have hpage : ¬ v / 4096 = virt / 4096 := by
      rw [page_eq hvlt hv, hvpd]
      exact fun h => hne h.1
    have hold := hmaps.others v hvlt hpage (by rw [hvpd, hj]; exact fun h => hf (Option.some.inj h))
    rw [walk32_bind hvlt, walk32_bind hvlt, htabs, hvpd, hvpt, hj, Option.bind_some, Option.bind_some, phys_setWord_self, hx] at hold
    exact hother hold.symm
  · intro hcond
    refine ⟨rfl, fun v hvlt hpage => ?_, fun v hvlt hpage hwin => ?_⟩
    · obtain ⟨hpd, hpt⟩ := (page_eq hvlt hv).mp hpage
      rw [walk32_bind hvlt, htabs, hpd, hpt, ht, Option.bind_some, phys_setWord_self, hx]
    · rw [walk32_bind hvlt, walk32_bind hvlt, htabs]
      cases htab : s.table32 (pdOf v) with
      | none => rfl
      | some g =>
        rw [Option.bind_some, Option.bind_some]
        by_cases hword : g = f ∧ ptOf v = ptOf virt
        · obtain ⟨rfl, hpt⟩ := hword
          have hpd : pdOf v ≠ pdOf virt := fun hpd => hpage ((page_eq hvlt hv).mpr ⟨hpd, hpt⟩)
          rw [hpt, phys_setWord_self, hx]
          exact (hcond.resolve_left fun hall => hall _ hpd htab).symm
        · rw [phys_setWord fun hg hpt => hword ⟨hg, hpt⟩]

/-- `memory_map` maps one page and leaves the others, just where their table is theirs alone (or the page was there before),
or where the frame that a new table gets has no present entry in the three quarters that are not cleared. -/
theorem memoryMap_mapsOnly_iff (hself : s.table32 1023 = some s.cr3) (hv : virt < 2 ^ 32)
    (hwin : s.table32 (pdOf virt) ≠ some s.cr3) (ha : phys % 4096 = 0) (hp : phys < 2 ^ 32) (hflags : flags < 4096)
    (hpresent : flags % 2 = 1)
    (halloc : s.table32 (pdOf virt) = none → allocPhysPage s.pmm = .ok (p, pmm) ∧ ∀ j, s.table32 j ≠ some (p / 4096)) :
    (∃ t, memoryMap s s.cr3 phys virt flags = .ok t ∧ MapsOnly s virt phys t) ↔
      (∀ f, s.table32 (pdOf virt) = some f →
        (∀ j, j ≠ pdOf virt → s.table32 j ≠ some f) ∨ target (s.phys f (ptOf virt)) = some (phys / 4096)) ∧
      (s.table32 (pdOf virt) = none →
        ∀ k, 256 ≤ k → k < 1024 → k ≠ ptOf virt → ¬ Present (s.phys (p / 4096) k)) := by
  have he := target_entry ha hp hflags hpresent
  have hreturns : ∀ {t : Paging} {P : Paging → Prop}, memoryMap s s.cr3 phys virt flags = .ok t →
      ((∃ u, memoryMap s s.cr3 phys virt flags = .ok u ∧ P u) ↔ P t) := by
    intro t P ht
    rw [ht]
    exact ⟨fun ⟨u, hu, hP⟩ => Except.ok.inj hu ▸ hP, fun hP => ⟨t, rfl, hP⟩⟩
  cases htab : s.table32 (pdOf virt) with
  | none =>
    obtain ⟨hal, hfree⟩ := halloc htab
    obtain ⟨t, ht, hcreates⟩ := memoryMap_creates flags hself htab ha hp hal hfree
    rw [hreturns ht, hcreates.mapsOnly_iff hv htab hfree he]
    exact ⟨fun h => ⟨fun f hf => absurd hf (by simp), fun _ => h⟩, fun h => h.2 rfl⟩
  | some f =>
    have hf : f ≠ s.cr3 := fun h => hwin (by rw [htab, h])
    have ht : memoryMap s s.cr3 phys virt flags = .ok (s.setWord f (ptOf virt) (u32 phys ||| flags)) :=
      memoryMap_self hself htab (by rw [u32_eq hp]; omega)
    rw [hreturns ht, setWord_mapsOnly_iff hv htab hf he]
    exact ⟨fun h => ⟨fun g hg => Option.some.inj hg ▸ h, fun hnone => absurd hnone (Option.some_ne_none f)⟩, fun h => h.1 f rfl⟩

/-- A directory with nothing but its own entry; the first free frame holds one word. -/
def bareDirectory (word : ℕ) : Paging where
  phys := fun f i => if f = 1 ∧ i = 1023 then 0x1003 else if f = 256 ∧ i = 300 then word else 0
  pmm := ⟨fun _ => 0, NUM_FRAMES⟩
  cr3 := 1
  pdpt := fun _ => 0
  maxBitExtension := 36

lemma bareDirectory_alloc (word : ℕ) : ∃ pmm, allocPhysPage (bareDirectory word).pmm = .ok (0x100000, pmm) := by
  obtain ⟨⟨p, pmm⟩, halloc, rfl⟩ := exists_of_toOption_map (x := allocPhysPage ⟨fun _ => 0, NUM_FRAMES⟩) (g := Prod.fst)
    (c := 0x100000) (by decide)
  exact ⟨pmm, halloc⟩

lemma bareDirectory_table (word : ℕ) {j : ℕ} (hj : j < 1024) :
    (bareDirectory word).table32 j = if j = 1023 then some 1 else none := by
  have hword : (bareDirectory word).phys 1 j = if j = 1023 then 0x1003 else 0 := by simp [bareDirectory]
  rw [table32_eq hj]
  change target ((bareDirectory word).phys 1 j) = _
  rw [hword]
  split_ifs <;> rfl

lemma bareDirectory_free (word j : ℕ) : (bareDirectory word).table32 j ≠ some (0x100000 / 4096) := by
  intro hj
  rw [bareDirectory_table word (table32_lt hj)] at hj
  split_ifs at hj
  exact absurd (Option.some.inj hj) (by norm_num)

lemma bareDirectory_none (word : ℕ) : (bareDirectory word).table32 (pdOf 0x2000) = none :=
  bareDirectory_table word (by decide)

theorem memoryMap_mapsOnly_iff_bare :
    ∃ t, memoryMap (bareDirectory 0x7002) 1 0x5000 0x2000 3 = .ok t ∧ MapsOnly (bareDirectory 0x7002) 0x2000 0x5000 t := by
  have hnone := bareDirectory_none 0x7002
  obtain ⟨pmm, halloc⟩ := bareDirectory_alloc 0x7002
  have hword : ∀ k < 1024, ¬ Present ((bareDirectory 0x7002).phys (0x100000 / 4096) k) := by decide +kernel
  refine (memoryMap_mapsOnly_iff (bareDirectory_table 0x7002 (by norm_num)) (by norm_num)
    (by rw [hnone]; exact (Option.some_ne_none _).symm) (by norm_num) (by norm_num) (show 3 < 4096 by norm_num) (by norm_num)
    fun _ => ⟨halloc, bareDirectory_free 0x7002⟩).mpr ⟨fun f hf => ?_, fun _ k _ hk _ => hword k hk⟩
  rw [hnone] at hf
  cases hf

/-- The word that the frame of the new table held at index 300 maps a page. -/
theorem memoryMap_maps_another : ∃ t, memoryMap (bareDirectory 0x7003) 1 0x5000 0x2000 3 = .ok t ∧
    (bareDirectory 0x7003).walk32 0x12C000 = none ∧ t.walk32 0x12C000 = some 7 ∧
    ¬ MapsOnly (bareDirectory 0x7003) 0x2000 0x5000 t := by
  have hnone := bareDirectory_none 0x7003
  obtain ⟨pmm, halloc⟩ := bareDirectory_alloc 0x7003
  obtain ⟨t, ht, hcreates⟩ := memoryMap_creates 3 (bareDirectory_table 0x7003 (by norm_num))
    hnone (show 0x5000 % 4096 = 0 by norm_num) (by norm_num) halloc (bareDirectory_free 0x7003)
  have hbefore : (bareDirectory 0x7003).walk32 0x12C000 = none := by
    rw [walk32_bind (by norm_num), show pdOf 0x12C000 = pdOf 0x2000 by decide, hnone]
    rfl
  have hafter : t.walk32 0x12C000 = some 7 := by
    have hrest := hcreates.rest 300 (by norm_num) (by decide)
    rw [walk32_bind (by norm_num), show pdOf 0x12C000 = pdOf 0x2000 by decide, hcreates.table, Option.bind_some,
      show ptOf 0x12C000 = 300 by decide, hrest]
    decide
  refine ⟨t, ht, hbefore, hafter, fun hmaps => ?_⟩
  have hsame := hmaps.others 0x12C000 (by norm_num) (by norm_num)
    (by rw [show pdOf 0x12C000 = pdOf 0x2000 by decide, hnone]; exact (Option.some_ne_none _).symm)
  rw [hafter, hbefore] at hsame
  cases hsame

end Paging

end WordOS.Memory
