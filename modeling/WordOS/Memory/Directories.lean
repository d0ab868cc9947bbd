import WordOS.Memory.PaeRuns

/-! Page directories of which the PDPT holds some: what `pae_mmap` and `pae_unmap` leave of the others. -/

namespace WordOS.Memory

open Machine Lib

namespace Paging

variable {I : Type*} {s t u : Paging} {dir : I → Option ℕ} {σ τ : I} {pmm : Pmm} {virt phys flags x d f g i j k p v : ℕ}

/-- A frame above the first MiB that the bitmap has given away. -/
def Taken (s : Paging) (f : ℕ) : Prop := ∃ g, f = 256 + g ∧ s.pmm.bit g = true

/-- The tables of all directories, those in the PDPT and the others, are in frames of their own, and those frames are taken. -/
structure Shared (s : Paging) (dir : I → Option ℕ) : Prop where
  recursive : PageTables.Recursive target s.entries64 dir 511
  bits : s.maxBitExtension ≤ 52
  headroom : s.pmm.Headroom
  dirs : ∀ σ d, dir σ = some d → s.Taken d
  tables : ∀ σ j f, PageTables.table target s.entries64 dir σ j = some f → s.Taken f

/-- A frame that is taken, for something else than the tables of any directory. -/
structure SetAside (s : Paging) (dir : I → Option ℕ) (f : ℕ) : Prop where
  unused : PageTables.Unused target s.entries64 dir f
  taken : s.Taken f

def entryIn (s : Paging) (dir : I → Option ℕ) (σ : I) (j k : ℕ) : Option ℕ := PageTables.entry target s.entries64 dir σ j k

/-- One entry has changed, in a table of directory `σ` that may be new. -/
structure Sets (s : Paging) (dir : I → Option ℕ) (σ : I) (j k e : ℕ) (t : Paging) : Prop where
  shared : t.Shared dir
  pdpt : t.pdpt = s.pdpt
  self : t.entryIn dir σ j k = if Present e then some e else none
  others : ∀ τ j' k', j' ≠ 511 → (τ = σ → j' = j → k' ≠ k) → t.entryIn dir τ j' k' = s.entryIn dir τ j' k'

lemma Shared.unused (h : s.Shared dir) (hg : s.pmm.bit g = false) : PageTables.Unused target s.entries64 dir (256 + g) := by
  have hfree : ¬ s.Taken (256 + g) := by
    rintro ⟨g', hg', hb⟩
    obtain rfl : g = g' := by omega
    rw [hg] at hb
    cases hb
  exact ⟨fun σ hd => hfree (h.dirs σ _ hd), fun σ j ht => hfree (h.tables σ j _ ht)⟩

lemma Shared.withPdpt (h : s.Shared dir) (pdpt : ℕ → ℕ) : ({ s with pdpt := pdpt } : Paging).Shared dir :=
  ⟨h.recursive, h.bits, h.headroom, h.dirs, h.tables⟩

lemma SetAside.withPdpt (h : s.SetAside dir f) (pdpt : ℕ → ℕ) : ({ s with pdpt := pdpt } : Paging).SetAside dir f :=
  ⟨h.unused, h.taken⟩

lemma only_directory : (s.only i).directory j = if j = i then s.directory i else none := by
  by_cases hj : j = i
  · subst hj
    rw [if_pos rfl, directory, directory, show (s.only j).pdpt j = s.pdpt j from if_pos rfl]
  · rw [if_neg hj, directory, show (s.only i).pdpt j = 0 from if_neg hj]
    split_ifs <;> rfl

lemma entryIn_of_directory (hσ : dir σ = s.directory i) : s.entryIn dir σ j k = s.entryAt i j k := by
  have htab : PageTables.table target s.entries64 dir σ j = s.table i j := PageTables.table_comap hσ
  rw [entryIn, entryAt, PageTables.entry, PageTables.entry, htab]
  rfl

lemma table_of_directory (hσ : dir σ = s.directory i) : (s.only i).table i j = PageTables.table target s.entries64 dir σ j := by
  apply PageTables.table_comap
  rw [only_directory, if_pos rfl, hσ]

lemma entryIn_only (hσ : dir σ = s.directory i) : s.entryIn dir σ j k = (s.only i).entryAt i j k := by
  have htab := table_of_directory (j := j) hσ
  rw [table] at htab
  rw [entryIn, entryAt, PageTables.entry, PageTables.entry, htab]
  rfl

section

variable (hσ : dir σ = s.directory i)
include hσ

/-- What is reached through entry `i` of the PDPT. -/
lemma dir_of_only (j d : ℕ) (hd : (s.only i).directory j = some d) : j = i ∧ dir σ = some d := by
  rw [only_directory] at hd
  split_ifs at hd with hj
  exact ⟨hj, hσ.trans hd⟩

lemma table_of_only (ht : (s.only i).table k j = some f) : k = i ∧ PageTables.table target s.entries64 dir σ j = some f := by
  obtain ⟨d, hd, hf⟩ := PageTables.exists_dir_of_table ht
  obtain ⟨hk, hd⟩ := dir_of_only hσ k d hd
  refine ⟨hk, ?_⟩
  rw [PageTables.table_of_dir hd]
  exact hf

lemma unused_only (hf : PageTables.Unused target s.entries64 dir f) : (s.only i).Unused f :=
  hf.comap (fun _ => σ) fun j d hd => (dir_of_only hσ j d hd).2

lemma SetAside.parked (hf : s.SetAside dir f) : (s.only i).Parked f := ⟨unused_only hσ hf.unused, hf.taken⟩

namespace Shared

variable (h : s.Shared dir)
include h

lemma only : (s.only i).PaeReady := by
  refine ⟨?_, h.bits, h.headroom, fun f _ hb => unused_only hσ (h.unused hb)⟩
  apply h.recursive.comap fun _ => σ
  · exact fun j d hd => (dir_of_only hσ j d hd).2
  · intro j j' d d' hd hd' _
    exact (dir_of_only hσ j d hd).1.trans (dir_of_only hσ j' d' hd').1.symm

/-- The frames of the other directories are not in use there. -/
lemma parked_dir (hτ : τ ≠ σ) (hd : dir τ = some d) : (s.only i).Parked d := by
  refine ⟨⟨fun j hj => ?_, fun k j hj => ?_⟩, h.dirs τ d hd⟩
  · exact hτ (h.recursive.dir_inj τ σ d hd (dir_of_only hσ j d hj).2)
  · obtain ⟨-, ht⟩ := table_of_only hσ hj
    by_cases hr : j = 511
    · subst hr
      obtain ⟨d', hd', -⟩ := PageTables.exists_dir_of_table ht
      rw [h.recursive.table_self hd'] at ht
      exact hτ (h.recursive.dir_inj τ σ d hd (hd'.trans ht))
    · exact h.recursive.table_ne_dir σ j d τ hr ht hd

lemma parked_table (hτ : τ ≠ σ) (ht : PageTables.table target s.entries64 dir τ j = some f) : (s.only i).Parked f := by
  by_cases hr : j = 511
  · subst hr
    obtain ⟨d, hd, -⟩ := PageTables.exists_dir_of_table ht
    rw [h.recursive.table_self hd] at ht
    obtain rfl := Option.some.inj ht
    exact h.parked_dir hσ hτ hd
  · refine ⟨⟨fun k hk => ?_, fun k j' hj' => ?_⟩, h.tables τ j f ht⟩
    · exact h.recursive.table_ne_dir τ j f σ hr ht (dir_of_only hσ k f hk).2
    · exact hτ (h.recursive.table_frame hr ht (table_of_only hσ hj').2).1

end Shared

end

/-- What becomes of all directories when the tables of one change. -/
structure Redraws (s : Paging) (dir : I → Option ℕ) (σ : I) (i : ℕ) (t : Paging) : Prop where
  pdpt : t.pdpt = s.pdpt
  ready : (t.only i).PaeReady
  kept : ∀ f, (∃ τ, τ ≠ σ ∧ (dir τ = some f ∨ ∃ j, PageTables.table target s.entries64 dir τ j = some f)) →
    t.Taken f ∧ ∀ k, t.entries64 f k = s.entries64 f k
  own : ∀ d, dir σ = some d → t.Taken d
  tables : ∀ j f, (t.only i).table i j = some f →
    t.Taken f ∧ (PageTables.table target s.entries64 dir σ j = some f ∨ ¬ s.Taken f)

namespace Redraws

variable (h : Redraws s dir σ i t) (hσ : dir σ = s.directory i)
include h

lemma table_other (hτ : τ ≠ σ) (j : ℕ) :
    PageTables.table target t.entries64 dir τ j = PageTables.table target s.entries64 dir τ j :=
  PageTables.table_congr fun d hd => (h.kept d ⟨τ, hτ, .inl hd⟩).2 j

lemma entry_other (hτ : τ ≠ σ) (j k : ℕ) : t.entryIn dir τ j k = s.entryIn dir τ j k :=
  PageTables.entry_congr (h.table_other hτ j) fun f hf => (h.kept f ⟨τ, hτ, .inr ⟨j, hf⟩⟩).2 k

include hσ

lemma directory : dir σ = t.directory i := by rw [hσ, Paging.directory, Paging.directory, h.pdpt]

lemma table_own (j : ℕ) : PageTables.table target t.entries64 dir σ j = (t.only i).table i j :=
  (table_of_directory (h.directory hσ)).symm

lemma old_or_new (hf : PageTables.table target t.entries64 dir τ j = some f) :
    PageTables.table target s.entries64 dir τ j = some f ∨ τ = σ ∧ ¬ s.Taken f := by
  by_cases hτ : τ = σ
  · subst hτ
    rw [h.table_own hσ] at hf
    exact (h.tables j f hf).2.imp_right fun hn => ⟨rfl, hn⟩
  · exact .inl ((h.table_other hτ j).symm.trans hf)

lemma recursive (hs : s.Shared dir) : PageTables.Recursive target t.entries64 dir 511 := by
  refine ⟨fun τ d hd => ?_, hs.recursive.dir_inj, fun τ j f τ' hj hf hd => ?_, fun τ j τ' j' f hj hj' hf hf' => ?_⟩
  · by_cases hτ : τ = σ
    · subst hτ
      exact h.ready.recursive.self i d (by rw [only_directory, if_pos rfl, ← h.directory hσ, hd])
    · rw [(h.kept d ⟨τ, hτ, .inl hd⟩).2]
      exact hs.recursive.self τ d hd
  · rcases h.old_or_new hσ hf with hf | ⟨-, hn⟩
    · exact hs.recursive.table_ne_dir τ j f τ' hj hf hd
    · exact hn (hs.dirs τ' f hd)
  · rcases h.old_or_new hσ hf with ho | ⟨rfl, hn⟩
    · rcases h.old_or_new hσ hf' with ho' | ⟨rfl, hn'⟩
      · exact hs.recursive.table_inj τ j τ' j' f hj hj' ho ho'
      · exact absurd (hs.tables τ j f ho) hn'
    · rcases h.old_or_new hσ hf' with ho' | ⟨rfl, -⟩
      · exact absurd (hs.tables τ' j' f ho') hn
      · rw [h.table_own hσ] at hf hf'
        exact ⟨rfl, (h.ready.recursive.table_inj i j i j' f hj hj' hf hf').2⟩

lemma shared (hs : s.Shared dir) : t.Shared dir := by
  refine ⟨h.recursive hσ hs, h.ready.bits, h.ready.spare.headroom, fun τ d hd => ?_, fun τ j f hf => ?_⟩
  · by_cases hτ : τ = σ
    · exact h.own d (hτ ▸ hd)
    · exact (h.kept d ⟨τ, hτ, .inl hd⟩).1
  · by_cases hτ : τ = σ
    · subst hτ
      rw [h.table_own hσ] at hf
      exact (h.tables j f hf).1
    · rw [h.table_other hτ] at hf
      exact (h.kept f ⟨τ, hτ, .inr ⟨j, hf⟩⟩).1

lemma unused (hs : (s.only i).Parked f → (t.only i).Parked f) (hf : s.SetAside dir f) : t.SetAside dir f := by
  have hp := hs (hf.parked hσ)
  refine ⟨⟨fun τ hd => hf.unused.not_dir τ hd, fun τ j ht => ?_⟩, hp.taken⟩
  by_cases hτ : τ = σ
  · subst hτ
    rw [h.table_own hσ] at ht
    exact hp.unused.not_table i j ht
  · rw [h.table_other hτ] at ht
    exact hf.unused.not_table τ j ht

end Redraws

lemma paeMmap_parts (h : paeMmap s phys virt flags = .ok t) : ∃ e u w,
    s.load64 (pdWindow (pdpteOf virt) + 8 * pdIndexOf virt) = .ok e ∧
    (if Present e then .ok s else createNewPaePt s (pdpteOf virt) (pdIndexOf virt) (recursiveAddrOf (pdpteOf virt))) = .ok u ∧
    u.store64 (ptWindow (pdpteOf virt) (pdIndexOf virt) + 8 * ptIndexOf virt) 0 = .ok w ∧
    w.store64 (ptWindow (pdpteOf virt) (pdIndexOf virt) + 8 * ptIndexOf virt) (phys ||| flags) = .ok t := by
  rw [paeMmap] at h
  dsimp only at h
  by_cases hbits : phys / 2 ^ s.maxBitExtension ≠ 0
  · rw [if_pos hbits] at h
    cases h
  by_cases halign : phys % 2 ^ 10 ≠ 0
  · rw [if_neg hbits, if_pos halign] at h
    cases h
  rw [if_neg hbits, if_neg halign] at h
  obtain ⟨e, he, h⟩ := bind_eq_ok.mp h
  obtain ⟨u, hu, h⟩ := ite_bind_eq_ok h
  obtain ⟨w, hw, ht⟩ := bind_eq_ok.mp h
  exact ⟨e, u, w, he, hu, hw, ht⟩

lemma createNewPaePt_pdpt (h : createNewPaePt s i j x = .ok t) : t.pdpt = s.pdpt := by
  by_cases hp : ¬ Present (s.pdpt i)
  · rw [createNewPaePt, if_pos hp] at h
    cases h
  rw [createNewPaePt, if_neg hp] at h
  obtain ⟨⟨p, pmm⟩, -, h⟩ := bind_eq_ok.mp h
  obtain ⟨u, hu, h⟩ := bind_eq_ok.mp h
  rw [clear64_phys h, store64_phys hu]

lemma paeMmap_pdpt (h : paeMmap s phys virt flags = .ok t) : t.pdpt = s.pdpt := by
  obtain ⟨e, u, w, -, hu, hw, ht⟩ := paeMmap_parts h
  rw [store64_phys ht, store64_phys hw]
  split_ifs at hu
  · obtain rfl := Except.ok.inj hu
    rfl
  · exact (createNewPaePt_pdpt hu :)

/-- The table that `pae_mmap` makes is in a frame that was free. -/
lemma paeMmap_tables (h : s.PaeReady) (hj : pdIndexOf virt ≠ 511) (hflags : flags < 4096)
    (hm : paeMmap s phys virt flags = .ok t) (ht : t.table i j = some f) :
    s.table i j = some f ∨ ∃ g, f = 256 + g ∧ s.pmm.bit g = false ∧ t.pmm.bit g = true := by
  obtain ⟨-, hmaps, hphys, -, -, -⟩ := h.paeMmap hj hflags hm
  cases hnone : s.table (pdpteOf virt) (pdIndexOf virt) with
  | some f' => exact .inl ((hmaps.table h.recursive hnone hj i j).symm.trans ht)
  | none =>
    have hx : phys ||| flags < 2 ^ 64 := Nat.or_lt_two_pow (hphys.trans (by norm_num)) (hflags.trans (by norm_num))
    have hlt := pdIndexOf_lt virt
    obtain ⟨e, s₁, w, hl, hc, hw, hst⟩ := paeMmap_parts hm
    have hd := directory_of_present (pdpteOf_lt virt) (present_of_load64 (pdpteOf_lt virt) hlt hl)
    obtain ⟨e', hl', he⟩ := load64_pdWindow h.recursive hd hlt
    obtain rfl := Except.ok.inj (hl.symm.trans hl')
    have hpe : ¬ Present e := fun hp => by
      rw [hnone, target_of_present hp] at he
      cases he
    rw [if_neg hpe] at hc
    obtain ⟨h₁, -, -, ⟨g, hg, hlow, hwrites, -⟩, ho⟩ := createNewPaePt_ready h hd (by omega) hnone hc
    obtain ⟨-, hmaps₁, hpmm, -⟩ := store_entry_ready h₁ hj hg hx (bind_eq_ok.mpr ⟨w, hw, hst⟩)
    rw [hmaps₁.table h₁.recursive hg hj] at ht
    by_cases hij : i = pdpteOf virt ∧ j = pdIndexOf virt
    · obtain ⟨rfl, rfl⟩ := hij
      refine .inr ⟨g, Option.some.inj (ht.symm.trans hg), hlow.1, ?_⟩
      rw [hpmm, hwrites.bit, if_pos rfl]
    · refine .inl ?_
      rw [table_window h₁.recursive, ho i 511 j fun hi _ hj => hij ⟨hi, hj⟩, ← table_window h.recursive] at ht
      exact ht

lemma target_or_one (hf : f < 2 ^ 40) : target (4096 * f ||| 1) = some f := by
  have hor : 4096 * f ||| 1 = 4096 * f + 1 := (Nat.two_pow_add_eq_or_of_lt (i := 12) (by norm_num) f).symm
  rw [hor, target_of_present (show (4096 * f + 1) % 2 = 1 by omega), frameOf]
  exact congrArg some (by omega)

lemma TableTaken.taken (h : TableTaken s virt pmm) (hb : s.pmm.bit g = true) : pmm.bit g = true := by
  by_cases hnone : s.table (pdpteOf virt) (pdIndexOf virt) = none
  · obtain ⟨f, -, hw⟩ := h.missing hnone
    rw [hw.bit]
    split_ifs
    · rfl
    · exact hb
  · rw [h.present hnone]
    exact hb

namespace Shared

variable (h : s.Shared dir)
include h

/-- The frames in use by directory `τ` are set aside as seen from another one. -/
lemma parked_of_other (hσ : dir σ = s.directory i)
    (hf : ∃ τ, τ ≠ σ ∧ (dir τ = some f ∨ ∃ j, PageTables.table target s.entries64 dir τ j = some f)) : (s.only i).Parked f := by
  obtain ⟨τ, hτ, hd | ⟨j, ht⟩⟩ := hf
  · exact h.parked_dir hσ hτ hd
  · exact h.parked_table hσ hτ ht

/-- `pae_mmap` in the part of the address space that belongs to directory `σ`. -/
lemma mmap (hσ : dir σ = s.directory (pdpteOf virt)) (hj : pdIndexOf virt ≠ 511) (hflags : flags < 4096)
    (hm : paeMmap s phys virt flags = .ok t) : Sets s dir σ (pdIndexOf virt) (ptIndexOf virt) (phys ||| flags) t ∧
      ∀ f, s.SetAside dir f → t.SetAside dir f ∧ ∀ k, t.entries64 f k = s.entries64 f k := by
  have honly : paeMmap (s.only (pdpteOf virt)) phys virt flags = .ok (t.only (pdpteOf virt)) := by
    rw [paeMmap_only rfl, hm]
    rfl
  obtain ⟨hready, hmaps, -, htaken, -, hparked⟩ := (h.only hσ).paeMmap hj hflags honly
  have hpdpt := paeMmap_pdpt hm
  have hredraws : Redraws s dir σ (pdpteOf virt) t := by
    refine ⟨hpdpt, hready, fun f hf => ?_, fun d hd => ?_, fun j f hf => ?_⟩
    · obtain ⟨hp, he⟩ := hparked f (h.parked_of_other hσ hf)
      exact ⟨hp.taken, he⟩
    · obtain ⟨g, rfl, hb⟩ := h.dirs σ d hd
      exact ⟨g, rfl, htaken.taken hb⟩
    · rcases paeMmap_tables (h.only hσ) hj hflags honly hf with hold | ⟨g, rfl, hb, hb'⟩
      · obtain ⟨-, hold⟩ := table_of_only hσ hold
        obtain ⟨g, rfl, hb⟩ := h.tables σ j f hold
        exact ⟨⟨g, rfl, htaken.taken hb⟩, .inl hold⟩
      · refine ⟨⟨g, rfl, hb'⟩, .inr fun hold => ?_⟩
        obtain ⟨g', hg, hold⟩ := hold
        obtain rfl : g = g' := by omega
        exact Bool.false_ne_true (hb.symm.trans hold)
  refine ⟨⟨hredraws.shared hσ h, hpdpt, ?_, fun τ j' k' hj' hne => ?_⟩,
    fun f hf => ⟨hredraws.unused hσ (fun hp => (hparked f hp).1) hf, (hparked f (hf.parked hσ)).2⟩⟩
  · rw [entryIn_only (hredraws.directory hσ)]
    obtain ⟨f, ht, he⟩ := hmaps.exists_table
    rw [entryAt_of_table ht, he]
  · by_cases hτ : τ = σ
    · subst hτ
      rw [entryIn_only (hredraws.directory hσ), entryIn_only hσ]
      exact hmaps.others _ _ _ (fun _ hjj => hne rfl hjj) fun _ _ hjj => absurd hjj hj'
    · exact hredraws.entry_other hτ j' k'

/-- `pae_unmap` of a page whose frame is set aside. -/
lemma unmap (hσ : dir σ = s.directory (pdpteOf virt)) (hj : pdIndexOf virt ≠ 511)
    (ht : PageTables.table target s.entries64 dir σ (pdIndexOf virt) = some f)
    (he : u32 (pageOf (s.entries64 f (ptIndexOf virt))) = 4096 * (256 + g)) (hg : g ≤ 0xF00) (hp : s.SetAside dir (256 + g))
    (hu : paeUnmap s virt = .ok t) : Sets s dir σ (pdIndexOf virt) (ptIndexOf virt) 0 t ∧
      ∀ f', f' ≠ 256 + g → s.SetAside dir f' → t.SetAside dir f' ∧ ∀ k, t.entries64 f' k = s.entries64 f' k := by
  have honly : paeUnmap (s.only (pdpteOf virt)) virt = .ok (t.only (pdpteOf virt)) := by
    rw [paeUnmap_only rfl, hu]
    rfl
  have hs := h.only hσ
  have ht' : (s.only (pdpteOf virt)).table (pdpteOf virt) (pdIndexOf virt) = some f := by
    rw [table_of_directory hσ, ht]
  obtain ⟨hready, hmaps, hparked⟩ := hs.paeUnmap hj ht' he hg (hp.parked hσ) honly
  -- the bitmap and the one entry that change
  obtain ⟨pmm, hc, hst⟩ : ∃ pmm, clearFrame s.pmm g = .ok pmm ∧ t = { s with pmm := pmm }.setEntry f (ptIndexOf virt) 0 := by
    rw [entries64, if_pos (ptIndexOf_lt virt)] at he
    rw [Memory.paeUnmap] at hu
    dsimp only at hu
    have hi := window_entry (pdpteOf_lt virt) (pdIndexOf_lt virt) (ptIndexOf_lt virt)
    have hwalk : s.walk64 (ptWindow (pdpteOf virt) (pdIndexOf virt) + 8 * ptIndexOf virt) = some f := by
      rw [← walk64_only (window_part (pdpteOf_lt virt) (pdIndexOf_lt virt) (ptIndexOf_lt virt))]
      exact walk64_window hs.recursive ht' (ptIndexOf_lt virt)
    have hwalk' : ∀ pmm, ({ s with pmm := pmm } : Paging).walk64 (ptWindow (pdpteOf virt) (pdIndexOf virt) + 8 * ptIndexOf virt) =
        some f := fun _ => hwalk
    rw [load64, hwalk] at hu
    dsimp only at hu
    rw [ok_bind, hi, he, physicalToFrame_page hg] at hu
    obtain ⟨pmm, hc, hst⟩ := bind_eq_ok.mp hu
    rw [store64, hwalk' pmm, hi] at hst
    exact ⟨pmm, hc, (Except.ok.inj hst).symm⟩
  obtain ⟨-, hbit⟩ := clearFrame_others hs.numFrames hc
  have hpmm : t.pmm = pmm := by rw [hst, setEntry]
  have htaken : ∀ f', f' ≠ 256 + g → s.Taken f' → t.Taken f' := by
    rintro f' hf' ⟨g', rfl, hb⟩
    refine ⟨g', rfl, ?_⟩
    rw [hpmm]
    exact (hbit g' fun hgg => hf' (by rw [hgg])).trans hb
  have hframes : ∀ f', f' ≠ f → ∀ k, t.entries64 f' k = s.entries64 f' k := by
    intro f' hf' k
    rw [hst]
    exact entries64_setEntry fun hff => absurd hff hf'
  have hpdpt : t.pdpt = s.pdpt := by rw [hst, setEntry]
  have hredraws : Redraws s dir σ (pdpteOf virt) t := by
    refine ⟨hpdpt, hready, fun f' hf' => ?_, fun d hd => ?_, fun j f' hf' => ?_⟩
    · have hother := h.parked_of_other hσ hf'
      refine ⟨htaken f' ?_ hother.taken, hframes f' ?_⟩
      · rintro rfl
        obtain ⟨τ, -, hd | ⟨j, hj⟩⟩ := hf'
        · exact hp.unused.not_dir τ hd
        · exact hp.unused.not_table τ j hj
      · rintro rfl
        exact hother.unused.not_table _ _ ht'
    · exact htaken d (fun hdg => hp.unused.not_dir σ (hdg ▸ hd)) (h.dirs σ d hd)
    · rw [hmaps.table hs.recursive ht' hj] at hf'
      obtain ⟨-, hold⟩ := table_of_only hσ hf'
      exact ⟨htaken f' (fun hfg => hp.unused.not_table σ j (hfg ▸ hold)) (h.tables σ j f' hold), .inl hold⟩
  refine ⟨⟨hredraws.shared hσ h, hpdpt, ?_, fun τ j' k' hj' hne => ?_⟩, fun f' hf' ha => ⟨?_, hframes f' ?_⟩⟩
  · rw [entryIn_only (hredraws.directory hσ)]
    obtain ⟨f', hf', hz⟩ := hmaps.exists_table
    rw [entryAt_of_table hf', hz]
  · by_cases hτ : τ = σ
    · subst hτ
      rw [entryIn_only (hredraws.directory hσ), entryIn_only hσ]
      exact hmaps.others _ _ _ (fun _ hjj => hne rfl hjj) fun _ _ hjj => absurd hjj hj'
    · exact hredraws.entry_other hτ j' k'
  · exact hredraws.unused hσ (hparked f' hf') ha
  · rintro rfl
    exact ha.unused.not_table σ _ ht

/-- A write to a frame that is set aside. -/
lemma touch (hf : s.SetAside dir f) (ht : Touches s f t) : t.Shared dir ∧ (∀ τ j k, t.entryIn dir τ j k = s.entryIn dir τ j k) ∧
    ∀ g, s.SetAside dir g → t.SetAside dir g := by
  have htab := hf.unused.table_of_write ht.entries64
  have htaken : ∀ g, s.Taken g → t.Taken g := fun g hg => by
    rw [Taken, ht.pmm]
    exact hg
  refine ⟨⟨h.recursive.of_tables htab, ht.maxBitExtension ▸ h.bits, ht.pmm ▸ h.headroom, fun τ d hd => htaken d (h.dirs τ d hd),
    fun τ j g hg => htaken g (h.tables τ j g ((htab τ j).symm.trans hg))⟩, hf.unused.entry_of_write ht.entries64, fun g hg => ?_⟩
  exact ⟨⟨hg.unused.not_dir, fun τ j hj => hg.unused.not_table τ j ((htab τ j).symm.trans hj)⟩, htaken g hg.taken⟩

lemma alloc (ha : allocPhysPage s.pmm = .ok (p, pmm)) : ∃ g ≤ 0xF00, p = 4096 * (256 + g) ∧
    ({ s with pmm := pmm } : Paging).Shared dir ∧ ({ s with pmm := pmm } : Paging).SetAside dir (256 + g) ∧
    ∀ f, s.SetAside dir f → f ≠ 256 + g ∧ ({ s with pmm := pmm } : Paging).SetAside dir f := by
  obtain ⟨g, hg, hlow, rfl, hw, hroom⟩ := allocPhysPage_low h.headroom ha
  have htaken : ∀ f, s.Taken f → ({ s with pmm := pmm } : Paging).Taken f := by
    rintro f ⟨g', rfl, hb⟩
    refine ⟨g', rfl, ?_⟩
    change pmm.bit g' = true
    rw [hw.bit]
    split_ifs
    · rfl
    · exact hb
  refine ⟨g, hg, rfl, ⟨h.recursive, h.bits, hroom, fun τ d hd => htaken d (h.dirs τ d hd),
    fun τ j f hf => htaken f (h.tables τ j f hf)⟩, ⟨h.unused hlow.1, g, rfl, ?_⟩, fun f hf => ⟨?_, hf.unused, htaken f hf.taken⟩⟩
  · change pmm.bit g = true
    rw [hw.bit, if_pos rfl]
  · rintro rfl
    obtain ⟨g', hg', hb⟩ := hf.taken
    obtain rfl : g = g' := by omega
    exact Bool.false_ne_true (hlow.1.symm.trans hb)

/-- One more directory, without tables, in a frame that was set aside. -/
lemma add [DecidableEq I] (hf : s.SetAside dir f) (hself : s.entries64 f 511 = 4096 * f ||| 1) (hlt : f < 2 ^ 40)
    (hblank : ∀ k < 511, s.entries64 f k = 0) : s.Shared (Function.update dir σ (some f)) ∧
      (∀ τ j k, τ ≠ σ → s.entryIn (Function.update dir σ (some f)) τ j k = s.entryIn dir τ j k) ∧
      (∀ j k, j ≠ 511 → s.entryIn (Function.update dir σ (some f)) σ j k = none) ∧
      ∀ g, g ≠ f → s.SetAside dir g → s.SetAside (Function.update dir σ (some f)) g := by
  have hblank' : ∀ j, j ≠ 511 → target (s.entries64 f j) = none := by
    intro j hj
    by_cases hlt : j < 512
    · rw [hblank j (by omega)]
      rfl
    · rw [entries64, if_neg hlt]
      rfl
  have hself' : target (s.entries64 f 511) = some f := by rw [hself, target_or_one hlt]
  have htab : ∀ τ j g, PageTables.table target s.entries64 (Function.update dir σ (some f)) τ j = some g →
      τ = σ ∧ g = f ∨ PageTables.table target s.entries64 dir τ j = some g := by
    intro τ j g hg
    by_cases hτ : τ = σ
    · subst hτ
      rw [PageTables.table_update_self] at hg
      by_cases hj : j = 511
      · subst hj
        exact .inl ⟨rfl, Option.some.inj (hg.symm.trans hself')⟩
      · rw [hblank' j hj] at hg
        cases hg
    · rw [PageTables.table_update_ne hτ] at hg
      exact .inr hg
  have hdir : ∀ τ d, Function.update dir σ (some f) τ = some d → d = f ∨ dir τ = some d := by
    intro τ d hd'
    by_cases hτ : τ = σ
    · subst hτ
      rw [Function.update_self] at hd'
      exact .inl (Option.some.inj hd').symm
    · rw [Function.update_of_ne hτ] at hd'
      exact .inr hd'
  refine ⟨⟨h.recursive.add hf.unused hself' hblank', h.bits, h.headroom, fun τ d hd' => ?_, fun τ j g hg => ?_⟩,
    fun τ j k hτ => ?_, fun j k hj => ?_, fun g hne hg => ⟨⟨fun τ hd' => ?_, fun τ j ht => ?_⟩, hg.taken⟩⟩
  · rcases hdir τ d hd' with rfl | hd'
    · exact hf.taken
    · exact h.dirs τ d hd'
  · rcases htab τ j g hg with ⟨-, rfl⟩ | hg
    · exact hf.taken
    · exact h.tables τ j g hg
  · rw [entryIn, entryIn, PageTables.entry, PageTables.entry, PageTables.table_update_ne hτ]
  · apply PageTables.entry_of_table_none
    rw [PageTables.table_update_self, hblank' j hj]
  · rcases hdir τ g hd' with hgf | hd'
    · exact hne hgf
    · exact hg.unused.not_dir τ hd'
  · rcases htab τ j g ht with ⟨-, hgf⟩ | ht
    · exact hne hgf
    · exact hg.unused.not_table τ j ht

end Shared

namespace Sets

variable {e : ℕ}

lemma trans_self {e' : ℕ} (h : Sets s dir σ j k e t) (h' : Sets t dir σ j k e' u) : Sets s dir σ j k e' u where
  shared := h'.shared
  pdpt := h'.pdpt.trans h.pdpt
  self := h'.self
  others := fun τ j' k' hj hne => (h'.others τ j' k' hj hne).trans (h.others τ j' k' hj hne)

lemma touch (h : Sets s dir σ j k e t) (hf : t.SetAside dir f) (ht : Touches t f u) : Sets s dir σ j k e u := by
  obtain ⟨hs, he, -⟩ := h.shared.touch hf ht
  exact ⟨hs, ht.pdpt.trans h.pdpt, (he σ j k).trans h.self, fun τ j' k' hj hne => (he τ j' k').trans (h.others τ j' k' hj hne)⟩

lemma directory (h : Sets s dir σ j k e t) (hσ : dir σ = s.directory i) : dir σ = t.directory i := by
  rw [hσ, Paging.directory, Paging.directory, h.pdpt]

end Sets

lemma exists_table_of_entryIn {e : ℕ} (h : s.entryIn dir σ j k = some e) :
    ∃ f, PageTables.table target s.entries64 dir σ j = some f ∧ s.entries64 f k = e := by
  obtain ⟨f, ht, he⟩ := Option.bind_eq_some_iff.mp h
  refine ⟨f, ht, ?_⟩
  split_ifs at he
  exact Option.some.inj he

lemma Shared.opens {e : ℕ} (h : s.Shared dir) (hσ : dir σ = s.directory (pdpteOf virt)) (hv : virt % 4096 = 0 ∧ virt < 2 ^ 32)
    (he : s.entryIn dir σ (pdIndexOf virt) (ptIndexOf virt) = some e) (hg : s.SetAside dir (frameOf e)) :
    Opens (s.only (pdpteOf virt)) virt (frameOf e) := by
  refine ⟨(h.only hσ).recursive, (hg.parked hσ).unused, hv, ?_⟩
  rw [walk64_eq hv.2, translation_entryAt hv.2, ← entryIn_only hσ, he]
  rfl

namespace Shared

variable (h : s.Shared dir) (hσ : dir σ = s.directory 3)
include h hσ

/-- The mapping of one directory at `temp_page`, and what is written to it there. -/
lemma mapPd {clear : Bool} (hlt : g < 2 ^ 40) (hg : s.SetAside dir g) (hm : mapPd s clear (4096 * g) = .ok t) :
    Sets s dir σ 504 0 (4096 * g ||| 3) t ∧ ∀ f, s.SetAside dir f → t.SetAside dir f := by
  rw [mapPd_bind] at hm
  obtain ⟨u, hu, hm⟩ := bind_eq_ok.mp hm
  obtain ⟨w, hw, ht⟩ := bind_eq_ok.mp hm
  have hi : pdpteOf TEMP_PAGE_VIRT = 3 := by decide
  obtain ⟨hsets, haside⟩ := h.mmap (hi ▸ hσ) (by decide) (by norm_num) hu
  have hor : 4096 * g ||| 3 = 4096 * g + 3 := (Nat.two_pow_add_eq_or_of_lt (i := 12) (by norm_num) g).symm
  have hf : frameOf (4096 * g ||| 3) = g := by
    rw [hor, frameOf]
    omega
  have hpres : Present (4096 * g ||| 3) := by
    rw [hor]
    exact (show (4096 * g + 3) % 2 = 1 by omega)
  have hgu := (haside g hg).1
  have hself := hsets.self
  rw [if_pos hpres] at hself
  have hσu := hsets.directory (hi ▸ hσ)
  have hopens := hsets.shared.opens hσu ⟨by decide, by decide⟩ hself (hf.symm ▸ hgu)
  rw [hf, hi] at hopens
  have hclear : Touches u g w ∧ Touches (u.only 3) g (w.only 3) := by
    cases clear with
    | false =>
      obtain rfl := Except.ok.inj hw
      exact ⟨.refl u g, .refl (u.only 3) g⟩
    | true =>
      rw [if_pos rfl] at hw
      obtain ⟨w', hw', htouch, -, -⟩ := hopens.clear64 (k := 0) (n := 512) (by norm_num)
      have honly : (u.only 3).clear64 TEMP_PAGE_VIRT (4096 / 8) = .ok (w.only 3) := by
        rw [clear64_only (by decide) (by decide), hw]
        rfl
      obtain rfl := Except.ok.inj (hw'.symm.trans honly)
      exact ⟨⟨clear64_phys hw, htouch.frame⟩, htouch⟩
  have hstore : Touches w g t := by
    obtain ⟨t', ht', htouch, -, -⟩ := (hclear.2.opens hopens).store64 (k := 511) (x := 4096 * g ||| 1) (by norm_num)
      (Nat.or_lt_two_pow (by omega) (by norm_num))
    have honly : (w.only 3).store64 (TEMP_PAGE_VIRT + 8 * 511) (4096 * g ||| 1) = .ok (t.only 3) := by
      rw [store64_only (by decide), ht]
      rfl
    obtain rfl := Except.ok.inj (ht'.symm.trans honly)
    exact ⟨store64_phys ht, htouch.frame⟩
  have hboth := hclear.1.trans hstore
  exact ⟨hsets.touch hgu hboth, fun f hf' => (hsets.shared.touch hgu hboth).2.2 f (haside f hf').1⟩

/-- With `temp_page` unmapped, the frame of the last directory is free for other pages. -/
lemma mapPds {low mid high : ℕ} (hl : s.SetAside dir (256 + low)) (hm : s.SetAside dir (256 + mid))
    (hh : s.SetAside dir (256 + high)) (hlow : low ≤ 0xF00) (hmid : mid ≤ 0xF00) (hhigh : high ≤ 0xF00)
    (ht : mapPds s (4096 * (256 + low)) (4096 * (256 + mid)) (4096 * (256 + high)) = .ok t) :
    Sets s dir σ 504 0 0 t ∧ ∀ f, f ≠ 256 + high → s.SetAside dir f → t.SetAside dir f := by
  rw [mapPds_bind] at ht
  obtain ⟨s₁, h₁, ht⟩ := bind_eq_ok.mp ht
  obtain ⟨s₂, h₂, ht⟩ := bind_eq_ok.mp ht
  obtain ⟨s₃, h₃, ht⟩ := bind_eq_ok.mp ht
  obtain ⟨e₁, k₁⟩ := h.mapPd hσ (by omega) hl h₁
  obtain ⟨e₂, k₂⟩ := e₁.shared.mapPd (e₁.directory hσ) (by omega) (k₁ _ hm) h₂
  obtain ⟨e₃, k₃⟩ := e₂.shared.mapPd (e₂.directory (e₁.directory hσ)) (by omega) (k₂ _ (k₁ _ hh)) h₃
  have hi : pdpteOf TEMP_PAGE_VIRT = 3 := by decide
  have hσ₃ := e₃.directory (e₂.directory (e₁.directory hσ))
  have hor : 4096 * (256 + high) ||| 3 = 4096 * (256 + high) + 3 :=
    (Nat.two_pow_add_eq_or_of_lt (i := 12) (by norm_num) (256 + high)).symm
  have hself := e₃.self
  rw [if_pos (show (4096 * (256 + high) ||| 3) % 2 = 1 by omega)] at hself
  obtain ⟨f, hf, he⟩ := exists_table_of_entryIn hself
  obtain ⟨e₄, k₄⟩ := e₃.shared.unmap (hi ▸ hσ₃) (by decide) hf
    (show u32 (pageOf (s₃.entries64 f 0)) = 4096 * (256 + high) by rw [he, pageOf_or (by omega) (by norm_num), u32_eq (by omega)])
    hhigh (k₃ _ (k₂ _ (k₁ _ hh))) ht
  exact ⟨((e₁.trans_self e₂).trans_self e₃).trans_self e₄, fun f hne hf => (k₄ f hne (k₃ f (k₂ f (k₁ f hf)))).1⟩

end Shared

end Paging

end WordOS.Memory
