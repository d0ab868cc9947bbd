import WordOS.Lib.Runs
import WordOS.Memory.PdpteRuns

/-! Runs of `pae_mmap`, `pae_unmap` and `alloc_phys_page`: an address space of independent pages, and no page table in the
frames of the pages. -/

namespace WordOS.Memory

open Machine Lib Lib.Runs

lemma physicalToFrame_page {g : ℕ} (hg : g ≤ 0xF00) : physicalToFrame (4096 * (256 + g)) = g := by
  have h := physicalToFrame_frameToPhysical (f := g) (by omega)
  rw [frameToPhysical_eq (by omega)] at h
  rw [← h]
  exact congrArg physicalToFrame (by omega)

lemma clearFrame_others {s t : Pmm} {f : ℕ} (hn : 4 ≤ s.numFrames) (h : clearFrame s f = .ok t) :
    t.numFrames = s.numFrames ∧ ∀ g, g ≠ f → t.bit g = s.bit g := by
  by_cases hf : f ≤ s.numFrames
  · obtain ⟨u, hu, hw⟩ := clearFrame_ok hf (by omega)
    obtain rfl := Except.ok.inj (hu.symm.trans h)
    exact ⟨hw.numFrames, fun g hg => by rw [hw.bit, if_neg hg]⟩
  · obtain rfl := Except.ok.inj ((clearFrame_beyond (by omega)).symm.trans h)
    exact ⟨rfl, fun _ _ => rfl⟩

namespace Paging

variable {s t : Paging} {pmm : Pmm} {virt f g v w : ℕ}

lemma PaeReady.numFrames (h : s.PaeReady) : 4 ≤ s.pmm.numFrames := by
  obtain ⟨g, -, -, -, hn⟩ := h.spare.headroom
  omega

lemma PaeReady.clear (h : s.PaeReady) (hg : g ≤ 0xF00) (hp : s.Parked (256 + g)) (hc : clearFrame s.pmm g = .ok pmm) :
    ({ s with pmm := pmm } : Paging).PaeReady ∧
      ∀ f, f ≠ 256 + g → s.Parked f → ({ s with pmm := pmm } : Paging).Parked f := by
  obtain ⟨hn, hbit⟩ := clearFrame_others h.numFrames hc
  obtain ⟨r, hr, hr', hrb, hrn⟩ := h.spare.headroom
  refine ⟨⟨h.recursive, h.bits, ⟨r, hr, hr', (hbit r (by omega)).trans hrb, hn ▸ hrn⟩, fun f hf hb => ?_⟩, fun f hne hk => ?_⟩
  · by_cases hfg : f = g
    · exact hfg ▸ hp.unused
    · exact h.spare.unused f hf ((hbit f hfg).symm.trans hb)
  · obtain ⟨hu, k, rfl, hk⟩ := hk
    exact ⟨hu, k, rfl, (hbit k (by omega)).trans hk⟩

lemma PaeReady.setEntry (h : s.PaeReady) (hj : v ≠ 511) (ht : s.table w v = some f) (k x : ℕ) :
    (s.setEntry f k x).PaeReady ∧ ∀ g, s.Parked g → (s.setEntry f k x).Parked g := by
  obtain ⟨hs, htab, -⟩ := setEntry_ok h.recursive hj ht k x
  have hunused : ∀ g, s.Unused g → (s.setEntry f k x).Unused g := fun g hu => by
    refine ⟨hu.not_dir, fun i j hij => hu.not_table i j ?_⟩
    exact (htab i j).symm.trans hij
  exact ⟨⟨hs, h.bits, h.spare.headroom, fun g hg hb => hunused _ (h.spare.unused g hg hb)⟩,
    fun g hg => ⟨hunused g hg.unused, hg.taken⟩⟩

lemma PaeReady.paeUnmap (h : s.PaeReady) (hj : pdIndexOf virt ≠ 511) (ht : s.table (pdpteOf virt) (pdIndexOf virt) = some f)
    (he : u32 (pageOf (s.entries64 f (ptIndexOf virt))) = 4096 * (256 + g)) (hg : g ≤ 0xF00) (hp : s.Parked (256 + g))
    (hu : paeUnmap s virt = .ok t) : t.PaeReady ∧ Maps s virt 0 t ∧ ∀ f, f ≠ 256 + g → s.Parked f → t.Parked f := by
  have hk := ptIndexOf_lt virt
  obtain ⟨u, hu', hmaps⟩ := paeUnmap_ok h.recursive hj h.numFrames ht
  obtain rfl := Except.ok.inj (hu'.symm.trans hu)
  rw [entries64, if_pos hk] at he
  rw [Memory.paeUnmap] at hu
  dsimp only at hu
  rw [load64_window h.recursive ht hk, ok_bind, he, physicalToFrame_page hg] at hu
  obtain ⟨pmm, hc, hst⟩ := bind_eq_ok.mp hu
  obtain ⟨hr, hkeep⟩ := h.clear hg hp hc
  rw [store64_window (s := { s with pmm := pmm }) h.recursive ht hk] at hst
  obtain rfl := Except.ok.inj hst
  obtain ⟨hr', hkeep'⟩ := hr.setEntry hj ht (ptIndexOf virt) 0
  exact ⟨hr', hmaps, fun f hne hf => hkeep' f (hkeep f hne hf)⟩

end Paging

namespace PaeRuns

open Paging

/-- The page tables, the pages handed out and mapped nowhere, and the pages mapped since with their frames. -/
structure Clients where
  paging : Paging
  held : List ℕ
  mapped : List (ℕ × ℕ)

inductive Op
  | alloc
  | mmap (phys virt flags : ℕ)
  | unmap (virt : ℕ)

/-- A page is mapped with a frame of its own, and unmapped once. -/
inductive Step : Clients → Op → Clients → Prop
  | alloc {s p pmm} : allocPhysPage s.paging.pmm = .ok (p, pmm) →
      Step s .alloc ⟨{ s.paging with pmm := pmm }, p :: s.held, s.mapped⟩
  | mmap {s phys virt flags q} : phys ∈ s.held → virt < 2 ^ 32 → pdIndexOf virt ≠ 511 → (∀ x ∈ s.mapped, x.1 ≠ virt / 2 ^ 12) →
      flags < 4096 → Present flags → paeMmap s.paging phys virt flags = .ok q →
      Step s (.mmap phys virt flags) ⟨q, s.held.erase phys, (virt / 2 ^ 12, phys) :: s.mapped⟩
  | unmap {s phys virt q} : (virt / 2 ^ 12, phys) ∈ s.mapped → paeUnmap s.paging virt = .ok q →
      Step s (.unmap virt) ⟨q, s.held, s.mapped.erase (virt / 2 ^ 12, phys)⟩

def perform (s : Clients) : Op → Exec Clients
  | .alloc => do
    let (p, pmm) ← allocPhysPage s.paging.pmm
    return ⟨{ s.paging with pmm := pmm }, p :: s.held, s.mapped⟩
  | .mmap phys virt flags =>
    if phys ∈ s.held ∧ virt < 2 ^ 32 ∧ pdIndexOf virt ≠ 511 ∧ (∀ x ∈ s.mapped, x.1 ≠ virt / 2 ^ 12) ∧ flags < 4096 ∧
        Present flags then do
      let q ← paeMmap s.paging phys virt flags
      return ⟨q, s.held.erase phys, (virt / 2 ^ 12, phys) :: s.mapped⟩
    else throw .fault
  | .unmap virt =>
    match s.mapped.find? fun x => x.1 = virt / 2 ^ 12 with
    | some x => do
      let q ← paeUnmap s.paging virt
      return ⟨q, s.held, s.mapped.erase x⟩
    | none => throw .fault

lemma perform_step {s t : Clients} {op : Op} (h : perform s op = .ok t) : Step s op t := by
  cases op with
  | alloc =>
    obtain ⟨⟨p, pmm⟩, ha, h⟩ := bind_eq_ok.mp h
    obtain rfl := Except.ok.inj h
    exact .alloc ha
  | mmap phys virt flags =>
    rw [perform] at h
    split_ifs at h with hc
    obtain ⟨hp, hv, hj, hnew, hf, hpres⟩ := hc
    obtain ⟨q, hq, h⟩ := bind_eq_ok.mp h
    obtain rfl := Except.ok.inj h
    exact .mmap hp hv hj hnew hf hpres hq
  | unmap virt =>
    rw [perform] at h
    split at h
    · next x hx =>
      obtain ⟨q, hq, h⟩ := bind_eq_ok.mp h
      obtain rfl := Except.ok.inj h
      have hpage : x.1 = virt / 2 ^ 12 := by simpa using List.find?_some hx
      have hmem := List.mem_of_find?_eq_some hx
      rw [← Prod.mk.eta (p := x), hpage] at hmem ⊢
      exact .unmap hmem hq
    · cases h

/-- What an operation is to do to the entries that translate the pages. -/
def Op.apply (space : ℕ → Option ℕ) : Op → ℕ → Option ℕ
  | .alloc => space
  | .mmap phys virt flags => Function.update space (virt / 2 ^ 12) (some (phys ||| flags))
  | .unmap virt => Function.update space (virt / 2 ^ 12) none

def framesOf (s : Clients) : List ℕ := s.held ++ s.mapped.map Prod.snd

/-- The page tables translate the pages as `space` says, and the frames of the clients are theirs. -/
structure Holds (s : Clients) (space : ℕ → Option ℕ) : Prop where
  ready : s.paging.PaeReady
  translates : ∀ w < 2 ^ 32, pdIndexOf w ≠ 511 → s.paging.translation w = space (w / 2 ^ 12)
  own : ∀ p ∈ framesOf s, ∃ g ≤ 0xF00, p = 4096 * (256 + g) ∧ s.paging.Parked (256 + g)
  nodup : (framesOf s).Nodup
  entry : ∀ x ∈ s.mapped, x.1 < 2 ^ 20 ∧ x.1 / 2 ^ 9 % 2 ^ 9 ≠ 511 ∧
    ∃ flags < 4096, Present flags ∧ space x.1 = some (x.2 ||| flags)
  pages : (s.mapped.map Prod.fst).Nodup

namespace Holds

variable {s t : Clients} {space : ℕ → Option ℕ} {op : Op} {p phys virt flags w : ℕ} {pmm : Pmm} {q : Paging}

lemma alloc (h : Holds s space) (ha : allocPhysPage s.paging.pmm = .ok (p, pmm)) :
    Holds ⟨{ s.paging with pmm := pmm }, p :: s.held, s.mapped⟩ space := by
  obtain ⟨f, hf, hl, rfl, -, -⟩ := allocPhysPage_low h.ready.spare.headroom ha
  obtain ⟨f', he, -, hr, hp, hkeep⟩ := h.ready.alloc ha
  obtain rfl : 256 + f = f' := by omega
  refine ⟨hr, h.translates, ?_, ?_, h.entry, h.pages⟩
  · intro x hx
    rcases List.mem_cons.mp hx with rfl | hx
    · exact ⟨f, hf, rfl, hp⟩
    · obtain ⟨g, hg, rfl, hgp⟩ := h.own x hx
      exact ⟨g, hg, rfl, (hkeep _ hgp).2⟩
  · refine List.nodup_cons.mpr ⟨fun hx => ?_, h.nodup⟩
    obtain ⟨g, -, hg, hgp⟩ := h.own _ hx
    exact (hkeep _ hgp).1 (by omega)

lemma mmap (h : Holds s space) (hphys : phys ∈ s.held) (hv : virt < 2 ^ 32) (hj : pdIndexOf virt ≠ 511)
    (hnew : ∀ x ∈ s.mapped, x.1 ≠ virt / 2 ^ 12) (hf : flags < 4096) (hpres : Present flags)
    (hm : paeMmap s.paging phys virt flags = .ok q) :
    Holds ⟨q, s.held.erase phys, (virt / 2 ^ 12, phys) :: s.mapped⟩ (Op.apply space (.mmap phys virt flags)) := by
  obtain ⟨hr, hmaps, -, -, -, hkeep⟩ := h.ready.paeMmap hj hf hm
  have hperm : (framesOf ⟨q, s.held.erase phys, (virt / 2 ^ 12, phys) :: s.mapped⟩).Perm (framesOf s) := by
    refine List.perm_middle.trans ?_
    exact (List.perm_cons_erase hphys).symm.append_right _
  refine ⟨hr, fun w hw hwj => ?_, fun p hp => ?_, hperm.nodup_iff.mpr h.nodup, fun x hx => ?_, ?_⟩
  · rw [Op.apply]
    by_cases hpage : w / 2 ^ 12 = virt / 2 ^ 12
    · have he : Present (phys ||| flags) := by
        rw [Present, Nat.or_mod_two_eq_one]
        exact .inr hpres
      rw [hpage, Function.update_self, hmaps.translation_self hv hw hpage, if_pos he]
    · rw [Function.update_of_ne hpage, hmaps.translation_outside hv hw hpage hwj, h.translates w hw hwj]
  · obtain ⟨g, hg, rfl, hgp⟩ := h.own p (hperm.subset hp)
    exact ⟨g, hg, rfl, (hkeep _ hgp).1⟩
  · rw [Op.apply]
    rcases List.mem_cons.mp hx with rfl | hx
    · refine ⟨by omega, ?_, flags, hf, hpres, Function.update_self ..⟩
      rw [pdIndexOf, u32_eq hv] at hj
      omega
    · rw [Function.update_of_ne (hnew x hx)]
      exact h.entry x hx
  · refine List.nodup_cons.mpr ⟨fun hx => ?_, h.pages⟩
    obtain ⟨x, hx, he⟩ := List.mem_map.mp hx
    exact hnew x hx he

lemma table (h : Holds s space) (hx : (virt / 2 ^ 12, phys) ∈ s.mapped) : virt < 2 ^ 32 ∧ pdIndexOf virt ≠ 511 ∧
    ∃ f flags, s.paging.table (pdpteOf virt) (pdIndexOf virt) = some f ∧ flags < 4096 ∧
      s.paging.entries64 f (ptIndexOf virt) = phys ||| flags := by
  obtain ⟨hlt, hj, flags, hflags, -, he⟩ := h.entry _ hx
  have hv : virt < 2 ^ 32 := by omega
  have hj' : pdIndexOf virt ≠ 511 := by
    rw [pdIndexOf, u32_eq hv]
    omega
  have htr := h.translates virt hv hj'
  rw [he, translation_entryAt hv] at htr
  refine ⟨hv, hj', ?_⟩
  cases ht : s.paging.table (pdpteOf virt) (pdIndexOf virt) with
  | none =>
    rw [entryAt, PageTables.entry_of_table_none ht] at htr
    cases htr
  | some f =>
    rw [entryAt_of_table ht] at htr
    split_ifs at htr
    exact ⟨f, flags, rfl, hflags, Option.some.inj htr⟩

lemma unmap (h : Holds s space) (hx : (virt / 2 ^ 12, phys) ∈ s.mapped) (hu : paeUnmap s.paging virt = .ok q) :
    Holds ⟨q, s.held, s.mapped.erase (virt / 2 ^ 12, phys)⟩ (Op.apply space (.unmap virt)) := by
  obtain ⟨hv, hj, f, flags, ht, hflags, he⟩ := h.table hx
  have hmem : phys ∈ framesOf s := List.mem_append_right _ (List.mem_map_of_mem hx)
  obtain ⟨g, hg, rfl, hgp⟩ := h.own phys hmem
  have hperm : ((virt / 2 ^ 12, 4096 * (256 + g)) :: s.mapped.erase (virt / 2 ^ 12, 4096 * (256 + g))).Perm s.mapped :=
    (List.perm_cons_erase hx).symm
  have hframes : (4096 * (256 + g) :: framesOf ⟨q, s.held, s.mapped.erase (virt / 2 ^ 12, 4096 * (256 + g))⟩).Perm (framesOf s) :=
    List.perm_middle.symm.trans ((hperm.map Prod.snd).append_left s.held)
  have hnodup := List.nodup_cons.mp (hframes.nodup_iff.mpr h.nodup)
  have hpages := List.nodup_cons.mp ((hperm.map Prod.fst).nodup_iff.mpr h.pages)
  have hphys : u32 (pageOf (s.paging.entries64 f (ptIndexOf virt))) = 4096 * (256 + g) := by
    rw [he, pageOf_or (by omega) hflags, u32_eq (by omega)]
  obtain ⟨hr, hmaps, hkeep⟩ := h.ready.paeUnmap hj ht hphys hg hgp hu
  refine ⟨hr, fun w hw hwj => ?_, fun p hp => ?_, hnodup.2, fun x hx => ?_, hpages.2⟩
  · rw [Op.apply]
    by_cases hpage : w / 2 ^ 12 = virt / 2 ^ 12
    · rw [hpage, Function.update_self, hmaps.translation_self hv hw hpage, if_neg (by decide)]
    · rw [Function.update_of_ne hpage, hmaps.translation_outside hv hw hpage hwj, h.translates w hw hwj]
  · obtain ⟨k, hk, rfl, hkp⟩ := h.own p (hframes.subset (List.mem_cons_of_mem _ hp))
    refine ⟨k, hk, rfl, hkeep _ (fun hkg => hnodup.1 ?_) hkp⟩
    rwa [hkg] at hp
  · rw [Op.apply, Function.update_of_ne fun hpage => hpages.1 (List.mem_map.mpr ⟨x, hx, hpage⟩)]
    exact h.entry x (hperm.subset (List.mem_cons_of_mem _ hx))

lemma step (h : Holds s space) (hs : Step s op t) : Holds t (op.apply space) := by
  cases hs with
  | alloc ha => exact h.alloc ha
  | mmap hp hv hj hnew hf hpres hm => exact h.mmap hp hv hj hnew hf hpres hm
  | unmap hx hu => exact h.unmap hx hu

end Holds

end PaeRuns

end WordOS.Memory
