import WordOS.Memory.PaeTables
import WordOS.Memory.PmmBitmap

/-! `pae_mmap` and `pae_unmap` change one entry of one table. -/

namespace WordOS.Memory

open Machine Lib

namespace Paging

variable {s t : Paging} {pmm : Pmm} {virt phys flags v x f d i j k n i' j' k' : ℕ}

/-- The entry of a page by its indices, when it is present. -/
def entryAt (s : Paging) (i j k : ℕ) : Option ℕ := PageTables.entry target s.entries64 s.directory i j k

lemma entryAt_of_table (ht : s.table i j = some f) :
    s.entryAt i j k = if Present (s.entries64 f k) then some (s.entries64 f k) else none := by
  rw [entryAt, PageTables.entry_of_table ht, target]
  by_cases hp : Present (s.entries64 f k)
  · rw [if_pos hp, if_pos hp]
    rfl
  · rw [if_neg hp, if_neg hp]
    rfl

lemma setEntry_ok (hs : s.Recursive) (hj : j ≠ 511) (ht : s.table i j = some f) (k x : ℕ) :
    (s.setEntry f k x).Recursive ∧ (∀ i' j', (s.setEntry f k x).table i' j' = s.table i' j') ∧
      ∀ i' j' k', (i' = i → j' = j → k' ≠ k) → (s.setEntry f k x).entryAt i' j' k' = s.entryAt i' j' k' := by
  have hm : ∀ f' k', (f' = f → k' ≠ k) → (s.setEntry f k x).entries64 f' k' = s.entries64 f' k' := fun _ _ => entries64_setEntry
  exact ⟨hs.of_tables (hs.table_of_write hj ht hm), hs.table_of_write hj ht hm, fun i' j' k' => hs.entry_of_write hj ht hm⟩

lemma clear64_window (hs : s.Recursive) (hj : j ≠ 511) (ht : s.table i j = some f) (hn : k + n ≤ 512) :
    ∃ m, s.clear64 (ptWindow i j + 8 * k) n = .ok { s with phys := m } ∧
      (∀ f' k', (f' = f → k' < k) → ({ s with phys := m } : Paging).entries64 f' k' = s.entries64 f' k') ∧
      ∀ k', k ≤ k' → k' < k + n → ({ s with phys := m } : Paging).entries64 f k' = 0 := by
  induction n generalizing s k with
  | zero => exact ⟨s.phys, rfl, fun _ _ _ => rfl, fun k' h h' => absurd h' (by omega)⟩
  | succ n ih =>
    obtain ⟨hs', ht', -⟩ := setEntry_ok hs hj ht k 0
    obtain ⟨m, hm, hout, hin⟩ := ih hs' (k := k + 1) ((ht' i j).trans ht) (by omega)
    refine ⟨m, ?_, fun f' k' h => ?_, fun k' h h' => ?_⟩
    · rw [clear64, store64_window hs ht (by omega), ok_bind]
      exact hm
    · refine (hout f' k' fun hf => (h hf).trans (Nat.lt_succ_self k)).trans (entries64_setEntry fun hf => (h hf).ne)
    · rcases Nat.eq_or_lt_of_le h with rfl | h
      · exact (hout f k fun _ => Nat.lt_succ_self k).trans (entries64_setEntry_self (by norm_num) (by omega))
      · exact hin k' h (by omega)

lemma target_or_three (hf : f < 2 ^ 40) : target (4096 * f ||| 3) = some f ∧ 4096 * f ||| 3 < 2 ^ 64 := by
  have h : 4096 * f ||| 3 = 4096 * f + 3 := (Nat.two_pow_add_eq_or_of_lt (i := 12) (by norm_num) f).symm
  rw [h]
  refine ⟨?_, by omega⟩
  rw [target_of_present (show (4096 * f + 3) % 2 = 1 by omega), frameOf]
  exact congrArg some (by omega)

lemma createNewPaePt_ok (hs : s.Recursive) (hd : s.directory i = some d) (hj : j < 511) (hnone : s.table i j = none)
    (halloc : allocPhysPage s.pmm = .ok (4096 * f, pmm)) (hf : s.Unused f) (hlt : f < 2 ^ 40) :
    ∃ m, createNewPaePt s i j (recursiveAddrOf i) = .ok { s with pmm := pmm, phys := m } ∧
      ({ s with phys := m } : Paging).Recursive ∧ ({ s with phys := m } : Paging).table i j = some f ∧
      (∀ i' j' k', (i' = i → j' = 511 → k' ≠ j) → ({ s with phys := m } : Paging).entryAt i' j' k' = s.entryAt i' j' k') ∧
      ∀ f' k', f' ≠ f → f' ≠ d → ({ s with phys := m } : Paging).entries64 f' k' = s.entries64 f' k' := by
  have hp : Present (s.pdpt i) := by
    obtain ⟨-, -, -, -, hp, -⟩ := exists_directory (hs.table_self hd)
    exact hp
  obtain ⟨he, he64⟩ := target_or_three hlt
  have hj' : j ≠ 511 := by omega
  set s₁ := { s with pmm := pmm }.setEntry d j (4096 * f ||| 3) with hs₁
  have hm₁ : ∀ f' j', f' ≠ f → (f' = d → j' ≠ j) → s₁.entries64 f' j' = s.entries64 f' j' := fun f' j' _ h => entries64_setEntry h
  have he₁ : target (s₁.entries64 d j) = some f := by
    rw [hs₁, entries64_setEntry_self he64 (by omega)]
    exact he
  have hs' : s₁.Recursive := hs.install hj' hd hf he₁ hm₁
  have ht' : s₁.table i j = some f := (hs.table_of_install hd hf he₁ hm₁).1
  obtain ⟨m, hm, hout, hin⟩ := clear64_window (k := 0) hs' hj' ht' (n := 512) (by norm_num)
  rw [Nat.mul_zero, Nat.add_zero] at hm
  have hm₂ : ∀ f' j', f' ≠ f → (f' = d → j' ≠ j) →
      ({ s with phys := m } : Paging).entries64 f' j' = s.entries64 f' j' := fun f' j' hne h =>
    (hout f' j' fun hf => absurd hf hne).trans (hm₁ f' j' hne h)
  have hdf : d ≠ f := fun h => hf.not_dir i (h ▸ hd)
  have he₂ : target (({ s with phys := m } : Paging).entries64 d j) = some f := by
    rw [← he₁]
    exact congrArg target (hout d j fun h => absurd h hdf)
  have hb : ∀ k, target (({ s with phys := m } : Paging).entries64 f k) = none := fun k => by
    by_cases hk : k < 512
    · rw [show ({ s with phys := m } : Paging).entries64 f k = 0 from hin k (Nat.zero_le k) (by omega)]
      rfl
    · rw [entries64, if_neg hk]
      rfl
  refine ⟨m, ?_, hs.install hj' hd hf he₂ hm₂, (hs.table_of_install hd hf he₂ hm₂).1,
    fun i' j' k' => hs.entry_of_install hj' hd hnone hf he₂ hm₂ hb, fun f' k' hne hnd => hm₂ f' k' hne fun h => absurd h hnd⟩
  rw [createNewPaePt, if_neg (not_not_intro hp)]
  simp only [halloc, ok_bind]
  rw [show recursiveAddrOf i ||| 511 * 2 ^ 12 = ptWindow i 511 from rfl, show recursiveAddrOf i ||| j * 2 ^ 12 = ptWindow i j from rfl,
    store64_window (s := { s with pmm := pmm }) hs (hs.table_self hd) (by omega), ok_bind, show 4096 / 8 = 512 from rfl, ← hs₁, hm,
    hs₁, setEntry]

lemma pdpteOf_lt (virt : ℕ) : pdpteOf virt < 4 := by
  rw [pdpteOf, u32]
  omega

lemma pdIndexOf_lt (virt : ℕ) : pdIndexOf virt < 512 := Nat.mod_lt _ (by norm_num)

lemma ptIndexOf_lt (virt : ℕ) : ptIndexOf virt < 512 := Nat.mod_lt _ (by norm_num)

lemma directory_of_present (hi : i < 4) (hp : Present (s.pdpt i)) : s.directory i = some (frameOf (s.pdpt i)) := by
  rw [directory, if_pos hi, target_of_present hp]

lemma load64_pdWindow (hs : s.Recursive) (hd : s.directory i = some d) (hj : j < 512) :
    ∃ e, s.load64 (pdWindow i + 8 * j) = .ok e ∧ s.table i j = target e := by
  have ht := hs.table_self hd
  obtain ⟨hi, -⟩ := exists_directory ht
  refine ⟨s.phys.read64 d j, ?_, ?_⟩
  · rw [pdWindow_eq hi, load64_window hs ht hj]
  · rw [table, PageTables.table_of_dir hd, entries64, if_pos hj]

/-- What `pae_mmap` leaves: the page is mapped, and nothing else has changed but the window of a
table created on the way. -/
structure Maps (s : Paging) (virt e : ℕ) (t : Paging) : Prop where
  recursive : t.Recursive
  pdpt : t.pdpt = s.pdpt
  numFrames : t.pmm.numFrames = s.pmm.numFrames
  exists_table : ∃ f, t.table (pdpteOf virt) (pdIndexOf virt) = some f ∧ t.entries64 f (ptIndexOf virt) = e
  others : ∀ i j k, (i = pdpteOf virt → j = pdIndexOf virt → k ≠ ptIndexOf virt) →
    (s.table (pdpteOf virt) (pdIndexOf virt) = none → i = pdpteOf virt → j = 511 → k ≠ pdIndexOf virt) →
    t.entryAt i j k = s.entryAt i j k

lemma store_entry (hs : s.Recursive) (hj : pdIndexOf virt ≠ 511) (ht : s.table (pdpteOf virt) (pdIndexOf virt) = some f)
    (hx : x < 2 ^ 64) :
    ∃ t, (do
      let s ← s.store64 (ptWindow (pdpteOf virt) (pdIndexOf virt) + 8 * ptIndexOf virt) 0
      s.store64 (ptWindow (pdpteOf virt) (pdIndexOf virt) + 8 * ptIndexOf virt) x) = .ok t ∧ Maps s virt x t := by
  have hk := ptIndexOf_lt virt
  obtain ⟨hs₁, ht₁, ho₁⟩ := setEntry_ok hs hj ht (ptIndexOf virt) 0
  obtain ⟨hs₂, ht₂, ho₂⟩ := setEntry_ok hs₁ hj ((ht₁ ..).trans ht) (ptIndexOf virt) x
  refine ⟨_, ?_, hs₂, rfl, rfl, ⟨f, (ht₂ ..).trans ((ht₁ ..).trans ht), entries64_setEntry_self hx hk⟩,
    fun i j k h _ => (ho₂ i j k h).trans (ho₁ i j k h)⟩
  rw [store64_window hs ht hk, ok_bind, store64_window hs₁ ((ht₁ ..).trans ht) hk]

lemma paeMmap_ok (hs : s.Recursive) (hp : Present (s.pdpt (pdpteOf virt))) (hj : pdIndexOf virt ≠ 511)
    (hmax : phys < 2 ^ s.maxBitExtension) (ha : phys % 2 ^ 10 = 0) (hx : phys ||| flags < 2 ^ 64)
    (halloc : s.table (pdpteOf virt) (pdIndexOf virt) = none →
      ∃ p pmm, allocPhysPage s.pmm = .ok (p, pmm) ∧ s.Unused (p / 4096)) :
    ∃ t, paeMmap s phys virt flags = .ok t ∧ Maps s virt (phys ||| flags) t := by
  have hi := pdpteOf_lt virt
  have hd := directory_of_present hi hp
  obtain ⟨e, hl, he⟩ := load64_pdWindow hs hd (pdIndexOf_lt virt)
  have hmax' : ¬ phys / 2 ^ s.maxBitExtension ≠ 0 := not_not_intro (Nat.div_eq_of_lt hmax)
  by_cases hpe : Present e
  · rw [target_of_present hpe] at he
    obtain ⟨t, ht, hm⟩ := store_entry hs hj he hx
    refine ⟨t, ?_, hm⟩
    simp only [paeMmap, if_neg hmax', if_neg (not_not_intro ha), hl, ok_bind, if_pos hpe]
    exact ht
  · rw [target_of_not_present hpe] at he
    obtain ⟨p, pmm, halloc, hu⟩ := halloc he
    obtain ⟨hn, f, hf, rfl⟩ := allocPhysPage_page halloc
    rw [Nat.mul_div_cancel_left _ (by norm_num)] at hu
    have hlt := pdIndexOf_lt virt
    obtain ⟨m, hc, hs', ht', ho, -⟩ := createNewPaePt_ok hs hd (by omega) he halloc hu (by omega)
    obtain ⟨t, ht, hm⟩ := store_entry (s := { s with pmm := pmm, phys := m }) hs' hj ht' hx
    refine ⟨t, ?_, hm.recursive, hm.pdpt, hm.numFrames.trans hn, hm.exists_table, fun i j k h h' => ?_⟩
    · simp only [paeMmap, if_neg hmax', if_neg (not_not_intro ha), hl, ok_bind, if_neg hpe, hc]
      exact ht
    · refine (hm.others i j k h fun hnone => ?_).trans (ho i j k (h' he))
      exact absurd (ht'.symm.trans hnone) (by simp)

lemma paeUnmap_ok (hs : s.Recursive) (hj : pdIndexOf virt ≠ 511) (hn : 4 ≤ s.pmm.numFrames)
    (ht : s.table (pdpteOf virt) (pdIndexOf virt) = some f) :
    ∃ t, paeUnmap s virt = .ok t ∧ Maps s virt 0 t := by
  have hk := ptIndexOf_lt virt
  obtain ⟨pmm, hc, hn'⟩ := clearFrame_total hn (physicalToFrame (u32 (pageOf (s.phys.read64 f (ptIndexOf virt)))))
  obtain ⟨hs', ht', ho⟩ := setEntry_ok (s := { s with pmm := pmm }) hs hj ht (ptIndexOf virt) 0
  have hst := store64_window (s := { s with pmm := pmm }) (x := 0) hs ht hk
  refine ⟨_, ?_, hs', rfl, hn', ⟨f, (ht' ..).trans ht, entries64_setEntry_self (by norm_num) hk⟩, fun i j k h _ => ho i j k h⟩
  rw [paeUnmap]
  dsimp only
  rw [load64_window hs ht hk, ok_bind, hc, ok_bind, hst]

lemma getPhysFromVirt_ok (hs : s.Recursive) (ht : s.table (pdpteOf virt) (pdIndexOf virt) = some f) :
    getPhysFromVirt s virt = .ok (pageOf (s.entries64 f (ptIndexOf virt))) := by
  obtain ⟨-, -, d, hd, -⟩ := exists_directory ht
  obtain ⟨e, hl, he⟩ := load64_pdWindow hs hd (pdIndexOf_lt virt)
  have hp : Present e := (exists_of_target (he.symm.trans ht)).1
  rw [getPhysFromVirt, hl, ok_bind, if_neg (not_not_intro hp), load64_window hs ht (ptIndexOf_lt virt), ok_bind, entries64,
    if_pos (ptIndexOf_lt virt)]
  rfl

end Paging

end WordOS.Memory
