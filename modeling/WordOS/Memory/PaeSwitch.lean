import WordOS.Memory.PdTranslation
import WordOS.Memory.TransferResult

/-! `init_pae`: the code that switches the tables runs on through the switch. -/

namespace WordOS.Memory

open Machine Lib

/-- A page for a table and its physical address. -/
def newTable (fuel : ℕ) (s : VmmState) : Exec (ℕ × ℕ × VmmState) := do
  let (phys, pmm) ← allocPhysPage s.paging.pmm
  let (page, s) ← pageKalloc fuel { s with paging := { s.paging with pmm := pmm } } PGSIZE 0x3 (u32 phys)
  return (phys, page, s)

def VmmState.storeWords (s : VmmState) (v x : ℕ) : Exec VmmState := do
  return s.withPaging (← s.paging.storeWords v x)

def VmmState.mapIdentity (s : VmmState) (v addr : ℕ) : Exec VmmState := do
  return s.withPaging (← memoryMap s.paging (s.vmms v).rootPd addr addr 0x3)

/-- `eip -= 0xC0000000; eip &= ~0x3ff`, for the address that is called back. -/
def switchEip (eip : ℕ) : ℕ :=
  let eip := u32 (eip + 2 ^ 32 - 0xC0000000)
  eip - eip % 2 ^ 10

/-- The tables, up to the switch. -/
def buildPae (fuel : ℕ) (s : VmmState) (currentVmm eip : ℕ) : Exec (ℕ × ℕ × VmmState) := do
  let (pdptPhys, pdptPage, s) ← newTable fuel s
  let (identityPdPhys, identityPd, s) ← newTable fuel s
  let (identityPtPhys, identityPt, s) ← newTable fuel s
  let s ← s.storeWords (pdptPage + 8 * 0) (u32 identityPdPhys ||| 1)
  let (pd, s) ← transferPagesToPae fuel s currentVmm
  let s ← s.storeWords (pdptPage + 8 * 3) (u32 pd ||| 1)
  let eip := switchEip eip
  let s ← s.mapIdentity currentVmm eip
  let s ← s.mapIdentity currentVmm (bytePgroundup eip)
  let s ← s.storeWords (identityPt + 8 * (eip / 2 ^ 12 % 2 ^ 9)) (eip ||| 3)
  let s ← s.storeWords (identityPt + 8 * (bytePgroundup eip / 2 ^ 12 % 2 ^ 9)) (bytePgroundup eip ||| 3)
  let s ← s.storeWords (identityPd + 8 * (eip / 2 ^ 21 % 2 ^ 9)) (identityPtPhys ||| 3)
  let s ← s.storeWords (identityPd + 8 * 511) (identityPdPhys ||| 1)
  return (pdptPhys, pdptPage, s)

/-- What the processor asks of a present entry of the PDPT: bits 1, 2 and 5 to 8, and those beyond its addresses, are reserved. -/
def ValidPdpte (bits e : ℕ) : Prop := Present e → e / 2 % 4 = 0 ∧ e / 32 % 16 = 0 ∧ e < 2 ^ bits

instance (bits e : ℕ) : Decidable (ValidPdpte bits e) :=
  inferInstanceAs (Decidable (Present e → e / 2 % 4 = 0 ∧ e / 32 % 16 = 0 ∧ e < 2 ^ bits))

/-- The write of `cr0` that turns paging on again: the entries of the PDPT are loaded. -/
def enablePae (p : Paging) (pdptPhys bits : ℕ) : Exec Paging :=
  if ∀ i : Fin 4, ValidPdpte bits (p.phys.read64 (pdptPhys / 4096) i) then
    .ok { p with cr3 := pdptPhys / 4096, pdpt := p.phys.read64 (pdptPhys / 4096) }
  else .error .fault

/-- `cpuid` is `eax` for each leaf. -/
def initPae (fuel : ℕ) (s : VmmState) (currentVmm : ℕ) (cpuid : ℕ → ℕ) (eip : ℕ) : Exec (ℕ × VmmState) := do
  if cpuid 0x01 &&& 2 ^ 6 = 0 then throw (.panic "No PAE supported...\n")
  let maxPhysAddr := cpuid 0x80000008 % 2 ^ 8
  let s := s.withPaging { s.paging with maxBitExtension := maxPhysAddr }
  let (pdptPhys, pdptPage, s) ← buildPae fuel s currentVmm eip
  let paging ← enablePae s.paging pdptPhys maxPhysAddr
  return (pdptPage, s.withPaging paging)

/-- The pages of the code around the switch, where they lie in memory. -/
def InSwitch (eip a : ℕ) : Prop :=
  a / 4096 = switchEip eip / 4096 ∨ a / 4096 = bytePgroundup (switchEip eip) / 4096

/-- `memory_map` leaves an entry for the page, in a table that was there or is new. -/
structure Installs (s : Paging) (virt e f : ℕ) (t : Paging) : Prop where
  cr3 : t.cr3 = s.cr3
  table : t.table32 (pdOf virt) = some f
  tables : ∀ j, j ≠ pdOf virt → t.table32 j = s.table32 j
  entry : t.phys f (ptOf virt) = e
  beside : s.table32 (pdOf virt) = some f → ∀ k, k ≠ ptOf virt → t.phys f k = s.phys f k
  frames : ∀ g k, g ≠ f → g ≠ s.cr3 → t.phys g k = s.phys g k

/-- The pages of the tables lie at their frames, in which there is no table of the directory in use. -/
structure Holding (pages : List (ℕ × ℕ)) (t : Paging) : Prop where
  recursive : t.Recursive32
  walk : ∀ q ∈ pages, ∀ off < 4096, t.walk32 (q.1 + off) = some (q.2 / 4096)
  unused : ∀ q ∈ pages, t.Unused32 (q.2 / 4096)
  page : ∀ q ∈ pages, IsPage q.1

variable {s t u : Paging} {S : VmmState} {l used pages : List (ℕ × ℕ)} {q q₀ : ℕ × ℕ} {pmm : Pmm}
  {fuel f g i j k v a b p x e virt phys flags eip bits off : ℕ}

lemma memoryMap_offset (hr : f < 4096) (hf : f % 2 ^ 10 = 0) (ha : a % 4096 = 0) (hlt : a + f < 2 ^ 32) :
    memoryMap s x (a + f) virt 3 = memoryMap s x a virt (f ||| 3) := by
  have hor : a + f = a ||| f := by
    obtain ⟨q, rfl⟩ : ∃ q, a = 2 ^ 12 * q := ⟨a / 4096, by omega⟩
    exact Nat.two_pow_add_eq_or_of_lt (by omega) q
  have hu : u32 (a + f) ||| 3 = u32 a ||| (f ||| 3) := by
    rw [u32_eq hlt, u32_eq (by omega), hor, Nat.or_assoc]
  have halign : u32 (a + f) % 2 ^ 10 = 0 ∧ u32 a % 2 ^ 10 = 0 := by
    rw [u32_eq hlt, u32_eq (by omega)]
    omega
  rw [memoryMap, memoryMap, hu, halign.1, halign.2]

namespace Paging

lemma memoryMap_installs (flags : ℕ) (hself : s.table32 1023 = some s.cr3) (hdir : s.table32 (pdOf virt) ≠ some s.cr3)
    (ha : phys % 4096 = 0) (hp : phys < 2 ^ 32)
    (halloc : s.table32 (pdOf virt) = none → allocPhysPage s.pmm = .ok (p, pmm) ∧ ∀ j, s.table32 j ≠ some (p / 4096)) :
    ∃ f t, memoryMap s s.cr3 phys virt flags = .ok t ∧ Installs s virt (u32 (u32 phys ||| flags)) f t ∧
      (s.table32 (pdOf virt) = some f ∨ s.table32 (pdOf virt) = none ∧ f = p / 4096) := by
  cases htab : s.table32 (pdOf virt) with
  | none =>
    obtain ⟨hal, hfree⟩ := halloc htab
    obtain ⟨t, ht, hc⟩ := memoryMap_creates flags hself htab ha hp hal hfree
    refine ⟨p / 4096, t, ht, ⟨hc.cr3, hc.table, hc.tables, hc.entry, fun h => ?_, hc.frames⟩, .inr ⟨rfl, rfl⟩⟩
    rw [htab] at h
    cases h
  | some f =>
    have hf : f ≠ s.cr3 := fun h => hdir (by rw [htab, h])
    refine ⟨f, _, memoryMap_self hself htab (by rw [u32_eq hp]; omega), ?_, .inl rfl⟩
    refine ⟨rfl, ?_, fun j _ => table32_setWord hf j, phys_setWord_self, fun _ k hk => phys_setWord fun _ => hk,
      fun g k hg _ => phys_setWord fun h => absurd h hg⟩
    rw [table32_setWord hf]
    exact htab

end Paging

lemma VmmState.storeWords_paging (h : s.storeWords a x = .ok t) : (S.withPaging s).storeWords a x = .ok (S.withPaging t) := by
  change (do return (S.withPaging s).withPaging (← s.storeWords a x)) = _
  rw [h]
  rfl

lemma VmmState.mapIdentity_paging (hr : (S.vmms v).rootPd = x) (h : memoryMap s x a a 3 = .ok t) :
    (S.withPaging s).mapIdentity v a = .ok (S.withPaging t) := by
  change (do return (S.withPaging s).withPaging (← memoryMap s (S.vmms v).rootPd a a 3)) = _
  rw [hr, h]
  rfl

namespace Installs

lemma recursive (h : Installs s virt e f t) (hs : s.Recursive32) (hj : pdOf virt ≠ 1023)
    (hf : s.table32 (pdOf virt) = some f ∨ s.Unused32 f) : t.Recursive32 := by
  have hdir : ∀ i d, t.directory32 i = some d → d = s.cr3 := fun _ d hd => (Option.some.inj hd).symm.trans h.cr3
  have hcase : ∀ j g, t.table32 j = some g → j = pdOf virt ∧ g = f ∨ j ≠ pdOf virt ∧ s.table32 j = some g := by
    intro j g hg
    by_cases hjv : j = pdOf virt
    · subst hjv
      exact .inl ⟨rfl, Option.some.inj (hg.symm.trans h.table)⟩
    · exact .inr ⟨hjv, (h.tables j hjv).symm.trans hg⟩
  have hnew : ∀ j, j ≠ pdOf virt → s.table32 j ≠ some f := by
    intro j hjv htab
    rcases hf with hold | hun
    · exact hjv (hs.table_frame hj hold htab).2.symm
    · exact hun.not_table () j htab
  refine ⟨fun i d hd => ?_, fun _ _ _ _ _ => rfl, fun i j g i' hj' hg hd => ?_, fun i j i' j' g hj₁ hj₂ hg hg' => ⟨rfl, ?_⟩⟩
  · obtain rfl := hdir i d hd
    have hself : t.table32 1023 = some s.cr3 := (h.tables 1023 hj.symm).trans (hs.table_self rfl)
    exact (PageTables.table_of_dir hd).symm.trans hself
  · have hg' := hdir i' g hd
    rcases hcase j g hg with ⟨-, rfl⟩ | ⟨-, hg⟩
    · rcases hf with hold | hun
      · exact hs.table_ne_dir () (pdOf virt) g () hj hold (congrArg some hg'.symm)
      · exact hun.not_dir () (congrArg some hg'.symm)
    · exact hs.table_ne_dir () j g () hj' hg (congrArg some hg'.symm)
  · rcases hcase j g hg with ⟨rfl, rfl⟩ | ⟨hjv, hg⟩
    · by_contra hne
      rcases hcase j' g hg' with ⟨rfl, -⟩ | ⟨hjv', hg'⟩
      · exact hne rfl
      · exact hnew j' hjv' hg'
    · rcases hcase j' g hg' with ⟨rfl, rfl⟩ | ⟨-, hg'⟩
      · exact absurd hg (hnew j hjv)
      · exact (hs.table_inj () j () j' g hj₁ hj₂ hg hg').2

lemma walk_page (h : Installs s virt e f t) (hv : virt < 2 ^ 32) (he : target e = some (phys / 4096)) (ha : a < 2 ^ 32)
    (hpage : a / 4096 = virt / 4096) : t.walk32 a = some (phys / 4096) := by
  obtain ⟨hpd, hpt⟩ := (Paging.page_eq ha hv).mp hpage
  rw [Paging.walk32_bind ha, hpd, hpt, h.table, Option.bind_some, h.entry, he]

/-- A page of another table, which neither is new nor the directory. -/
lemma walk_other (h : Installs s virt e f t) (hpd : pdOf a ≠ pdOf virt) (ha : a < 2 ^ 32) (hg : s.table32 (pdOf a) = some g)
    (hgf : g ≠ f) (hgd : g ≠ s.cr3) : t.walk32 a = s.walk32 a := by
  rw [Paging.walk32_bind ha, Paging.walk32_bind ha, h.tables _ hpd, hg, Option.bind_some, Option.bind_some, h.frames g _ hgf hgd]

/-- Another page of the same table. -/
lemma walk_beside (h : Installs s virt e f t) (hv : virt < 2 ^ 32) (ha : a < 2 ^ 32) (hpd : pdOf a = pdOf virt)
    (hf : s.table32 (pdOf virt) = some f) (hpage : a / 4096 ≠ virt / 4096) : t.walk32 a = s.walk32 a := by
  have hpt : ptOf a ≠ ptOf virt := fun hpt => hpage ((Paging.page_eq ha hv).mpr ⟨hpd, hpt⟩)
  rw [Paging.walk32_bind ha, Paging.walk32_bind ha, hpd, h.table, hf, Option.bind_some, Option.bind_some, h.beside hf _ hpt]

end Installs

namespace Holding

lemma write (h : Holding pages t) (hq : q ∈ pages) (i x : ℕ) :
    Holding pages { t with phys := t.phys.write32 (q.2 / 4096) i x } ∧
      (∀ j, ({ t with phys := t.phys.write32 (q.2 / 4096) i x } : Paging).table32 j = t.table32 j) ∧
      ∀ a < 2 ^ 32, ({ t with phys := t.phys.write32 (q.2 / 4096) i x } : Paging).walk32 a = t.walk32 a := by
  have hu := h.unused q hq
  have htab : ∀ j, ({ t with phys := t.phys.write32 (q.2 / 4096) i x } : Paging).table32 j = t.table32 j := by
    intro j
    apply Paging.table32_setWord (s := t)
    exact fun he => hu.not_dir () (congrArg some he.symm)
  have hwalk : ∀ a < 2 ^ 32, ({ t with phys := t.phys.write32 (q.2 / 4096) i x } : Paging).walk32 a = t.walk32 a := by
    intro a ha
    rw [Paging.walk32_bind ha, Paging.walk32_bind ha, htab]
    cases hf : t.table32 (pdOf a) with
    | none => rfl
    | some f =>
      have hne : f ≠ q.2 / 4096 := fun he => hu.not_table () (pdOf a) (he ▸ hf)
      exact congrArg (fun m => target (m (ptOf a))) (Phys.write32_frame hne)
  refine ⟨⟨h.recursive.of_tables fun _ => htab, fun q' hq' off hoff => ?_, fun q' hq' => ?_, h.page⟩, htab, hwalk⟩
  · have hlt := (h.page q' hq').2
    rw [RECURSIVE_ADDR] at hlt
    rw [hwalk _ (by omega)]
    exact h.walk q' hq' off hoff
  · have hu' := h.unused q' hq'
    exact ⟨hu'.not_dir, fun _ j he => hu'.not_table () j ((htab j).symm.trans he)⟩

lemma store (h : Holding pages t) (hq : q ∈ pages) (hoff : off < 4096) (x : ℕ) :
    t.store32 (q.1 + off) x = .ok { t with phys := t.phys.write32 (q.2 / 4096) (off / 4) x } := by
  have ha := (h.page q hq).1
  have hw : (q.1 + off) % 2 ^ 12 / 4 = off / 4 := by omega
  rw [Paging.store32, h.walk q hq off hoff, hw]

lemma storeWords (h : Holding pages t) (hq : q ∈ pages) (hi : i < 512) (x : ℕ) :
    t.storeWords (q.1 + 8 * i) x = .ok { t with phys := t.phys.write64 (q.2 / 4096) i x } ∧
      Holding pages { t with phys := t.phys.write64 (q.2 / 4096) i x } ∧
      (∀ j, ({ t with phys := t.phys.write64 (q.2 / 4096) i x } : Paging).table32 j = t.table32 j) ∧
      ∀ a < 2 ^ 32, ({ t with phys := t.phys.write64 (q.2 / 4096) i x } : Paging).walk32 a = t.walk32 a := by
  have hlow := h.store hq (show 8 * i < 4096 by omega) (u32 x)
  have heven : 8 * i / 4 = 2 * i := by omega
  have hword : t.phys.write32 (q.2 / 4096) (2 * i) (u32 x) = t.phys.write32 (q.2 / 4096) (2 * i) x := by
    rw [Phys.write32, Phys.write32, u32_u32]
  rw [heven, hword] at hlow
  obtain ⟨h₁, htab₁, hwalk₁⟩ := h.write hq (2 * i) x
  have hhigh := h₁.store hq (show 8 * i + 4 < 4096 by omega) (x / 2 ^ 32)
  have hodd : (8 * i + 4) / 4 = 2 * i + 1 := by omega
  rw [hodd, ← Nat.add_assoc] at hhigh
  obtain ⟨h₂, htab₂, hwalk₂⟩ := h₁.write hq (2 * i + 1) (x / 2 ^ 32)
  refine ⟨?_, h₂, fun j => (htab₂ j).trans (htab₁ j), fun a ha => (hwalk₂ a ha).trans (hwalk₁ a ha)⟩
  rw [Paging.storeWords, hlow, ok_bind, hhigh]
  rfl

/-- `memory_map` in another table leaves the pages. -/
lemma install (h : Holding pages t) (hi : Installs t virt e f u) (hj : pdOf virt ≠ 1023)
    (hf : t.table32 (pdOf virt) = some f ∨ t.Unused32 f ∧ ∀ q ∈ pages, q.2 / 4096 ≠ f) (hpd : ∀ q ∈ pages, pdOf q.1 ≠ pdOf virt) :
    Holding pages u := by
  refine ⟨hi.recursive h.recursive hj (hf.imp_right And.left), fun q hq off hoff => ?_, fun q hq => ?_, h.page⟩
  · obtain ⟨halign, hlt⟩ := h.page q hq
    rw [RECURSIVE_ADDR] at hlt
    have ha : q.1 + off < 2 ^ 32 := by omega
    have hpdq : pdOf (q.1 + off) = pdOf q.1 := by
      rw [pdOf, pdOf, u32_eq ha, u32_eq (by omega)]
      omega
    have hwalk := h.walk q hq off hoff
    rw [← hwalk]
    rw [Paging.walk32_bind ha] at hwalk
    obtain ⟨g, hg, -⟩ := Option.bind_eq_some_iff.mp hwalk
    have hne : pdOf (q.1 + off) ≠ 1023 := by
      rw [hpdq]
      exact (h.page q hq).pd_ne
    refine hi.walk_other (by rw [hpdq]; exact hpd q hq) ha hg ?_ fun hgd => ?_
    · rintro rfl
      rcases hf with hold | ⟨hun, -⟩
      · exact hpd q hq (hpdq.symm.trans (h.recursive.table_frame hne hg hold).2)
      · exact hun.not_table () _ hg
    · exact h.recursive.table_ne_dir () _ g () hne hg (congrArg some hgd.symm)
  · have hu := h.unused q hq
    refine ⟨fun _ hd => hu.not_dir () ((congrArg some hi.cr3.symm).trans hd), fun _ j htab => ?_⟩
    by_cases hjv : j = pdOf virt
    · subst hjv
      have hqf : f = q.2 / 4096 := Option.some.inj (hi.table.symm.trans htab)
      rcases hf with hold | ⟨-, hne⟩
      · exact hu.not_table () (pdOf virt) (hqf ▸ hold)
      · exact hne q hq hqf.symm
    · exact hu.not_table () j ((hi.tables j hjv).symm.trans htab)

end Holding

namespace Midway

lemma unused_iff (h : Midway s l used t) : t.Unused32 g ↔ s.Unused32 g := by
  have hdir : ∀ i, t.directory32 i = s.directory32 i := fun _ => congrArg some h.cr3
  constructor
  · exact fun hu => ⟨fun i hd => hu.not_dir i ((hdir i).trans hd), fun _ j htab => hu.not_table () j ((h.tables j).trans htab)⟩
  · exact fun hu => ⟨fun i hd => hu.not_dir i ((hdir i).symm.trans hd), fun _ j htab => hu.not_table () j ((h.tables j).symm.trans htab)⟩

lemma walk_kept (h : Midway s l used t) (hl : Mappable s l) (ha : a < RECURSIVE_ADDR) (hno : pageOf a ∉ l.map Prod.fst) :
    t.walk32 a = s.walk32 a := by
  have hlt : a < 2 ^ 32 := ha.trans (by decide)
  rw [Paging.walk32_bind hlt, Paging.walk32_bind hlt, h.tables]
  cases hf : s.table32 (pdOf a) with
  | none => rfl
  | some f =>
    have hr : ¬ Remaps l (pdOf a) (ptOf a) := by rwa [remaps_iff hl ha]
    rw [Option.bind_some, Option.bind_some, h.words _ _ f hf (Paging.ptOf_lt a) hr]

end Midway

/-- A frame that will be handed out is free. -/
lemma Supplies.free (h : Supplies fuel S l) (hn : S.paging.pmm.numFrames = NUM_FRAMES) :
    ∀ q ∈ l, ∃ f < 2 ^ 19, q.2 = 4096 * (256 + f) ∧ S.paging.pmm.bit f = false := by
  induction h with
  | nil => exact fun q hq => absurd hq List.not_mem_nil
  | @cons S u b p pmm l ha hp hm _ ih =>
    obtain ⟨f, hf, hpf, hclear, hw⟩ := allocPhysPage_frame hn ha hp
    intro q hq
    rcases List.mem_cons.mp hq with rfl | hq
    · exact ⟨f, hf, hpf, hclear⟩
    · obtain ⟨g, hg, hqg, hbit⟩ := ih (hw.numFrames.trans hn) q hq
      refine ⟨g, hg, hqg, ?_⟩
      have hbit' : pmm.bit g = false := hbit
      rw [hw.bit] at hbit'
      split_ifs at hbit'
      exact hbit'

namespace Underway

variable {rest : List (ℕ × ℕ)}

lemma newTable (h : Underway fuel s l used (q :: rest) S) (hl : Mappable s l) :
    ∃ S', newTable fuel S = .ok (q.2, q.1, S') ∧ Underway fuel s l (q :: used) rest S' ∧
      (∀ w, (S'.vmms w).rootPd = (S.vmms w).rootPd) ∧ (∀ g, s.Unused32 g → S'.paging.phys g = S.paging.phys g) ∧
      ∀ q' ∈ used, q'.2 / 4096 ≠ q.2 / 4096 := by
  obtain ⟨pmm, S', ha, hk, h', hroot, hsame, hne⟩ := h.kalloc hl
  refine ⟨S', ?_, h', hroot, hsame, hne⟩
  rw [Memory.newTable, ha, ok_bind]
  dsimp only
  rw [hk]
  rfl

/-- From here on anew. -/
lemma rebase (h : Underway fuel s l used rest S) (hl : Mappable s l) :
    Underway fuel S.paging rest [] rest S ∧ Mappable S.paging rest := by
  have hm := h.midway
  refine ⟨⟨⟨rfl, hm.recursive, fun _ => rfl, fun _ _ _ _ _ _ => rfl, hm.bound, hm.sized, fun f hf => ?_, ?_, ?_, fun _ _ _ => rfl⟩,
    h.supplies, h.rootPd.trans hm.cr3.symm, List.Perm.refl _⟩, fun q hq => ?_, ?_⟩
  · exact hm.unused_iff.mpr (hm.free f hf)
  · exact fun _ hq => absurd hq List.not_mem_nil
  · exact fun _ hq => absurd hq List.not_mem_nil
  · obtain ⟨hpage, f, hf⟩ := hl.page q (h.perm.mem_iff.mp (List.mem_append_right _ hq))
    exact ⟨hpage, f, (hm.tables _).trans hf⟩
  · have hn := (h.perm.map Prod.fst).nodup_iff.mpr hl.nodup
    rw [List.map_append] at hn
    exact (List.nodup_append.mp hn).2.1

end Underway

/-- Pages of one stage, when the next one has handed out its own. -/
lemma Holding.of_stages {later : List (ℕ × ℕ)} {used' : List (ℕ × ℕ)} (h : Midway s l used t) (hl : Mappable s l)
    (h' : Midway t later used' u) (hl' : Mappable t later) (hapart : ∀ q ∈ used, q.1 ∉ later.map Prod.fst) : Holding used u := by
  refine ⟨h'.recursive, fun q hq off hoff => ?_, fun q hq => ?_, fun q hq => (hl.page q (h.page q hq).1).1⟩
  · obtain ⟨halign, hlt⟩ := (hl.page q (h.page q hq).1).1
    have hpage : pageOf (q.1 + off) = q.1 := by
      rw [pageOf]
      omega
    rw [h'.walk_kept hl' (by omega) (by rw [hpage]; exact hapart q hq)]
    exact h.walk_page hl hq hoff
  · obtain ⟨f, -, hq', hun, -⟩ := h.frame q hq
    have hframe : q.2 / 4096 = 256 + f := by omega
    rw [hframe]
    exact h'.unused_iff.mpr (h.unused_iff.mpr hun)

lemma Underway.apart {later : List (ℕ × ℕ)} (h : Underway fuel s l used later S) :
    ∀ q ∈ used, ∀ q' ∈ later, q'.2 / 4096 ≠ q.2 / 4096 := by
  intro q hq q' hq' he
  obtain ⟨f, -, hf, -, htaken⟩ := h.midway.frame q hq
  obtain ⟨f', -, hf', hfree⟩ := h.supplies.free h.midway.sized q' hq'
  obtain rfl : f = f' := by omega
  rw [htaken] at hfree
  cases hfree

lemma memoryMap_identity (hs : t.Recursive32) (ha : a % 2 ^ 10 = 0) (hlt : a < 0x3fe00000)
    (halloc : t.table32 (pdOf a) = none → allocPhysPage t.pmm = .ok (p, pmm) ∧ ∀ j, t.table32 j ≠ some (p / 4096)) :
    ∃ e f u, memoryMap t t.cr3 a a 3 = .ok u ∧ Installs t a e f u ∧ target e = some (a / 4096) ∧
      (t.table32 (pdOf a) = some f ∨ t.table32 (pdOf a) = none ∧ f = p / 4096) := by
  have hsplit : a - a % 4096 + a % 4096 = a := by omega
  have hoffset : memoryMap t t.cr3 a a 3 = memoryMap t t.cr3 (a - a % 4096) a (a % 4096 ||| 3) := by
    have hoff : memoryMap t t.cr3 (a - a % 4096 + a % 4096) a 3 = memoryMap t t.cr3 (a - a % 4096) a (a % 4096 ||| 3) :=
      memoryMap_offset (by omega) (by omega) (by omega) (by omega)
    rwa [hsplit] at hoff
  have hpd : pdOf a ≠ 1023 := by
    rw [pdOf, u32_eq (by omega)]
    omega
  have hdir : t.table32 (pdOf a) ≠ some t.cr3 := fun htab => hs.table_ne_dir () (pdOf a) t.cr3 () hpd htab rfl
  obtain ⟨f, u, hu, hi, hf⟩ := Paging.memoryMap_installs (a % 4096 ||| 3) (hs.table_self rfl) hdir
    (show (a - a % 4096) % 4096 = 0 by omega) (by omega) halloc
  refine ⟨_, f, u, hoffset.trans hu, hi, ?_, hf⟩
  have hflags : a % 4096 ||| 3 < 4096 := Nat.or_lt_two_pow (n := 12) (by omega) (by norm_num)
  rw [Paging.target_entry (by omega) (by omega) hflags (Nat.or_mod_two_eq_one.mpr (.inr rfl))]
  exact congrArg some (by omega)

/-- Both pages of the code, which are in one table. -/
lemma Holding.identity (h : Holding pages t) (hpages : ∀ q ∈ pages, 768 ≤ pdOf q.1) (halloc : allocPhysPage t.pmm = .ok (p, pmm))
    (hp : t.Unused32 (p / 4096)) (hapart : ∀ q ∈ pages, q.2 / 4096 ≠ p / 4096) (ha : a % 2 ^ 10 = 0) (hb : b % 2 ^ 10 = 0)
    (hlt : a < 0x3fe00000) (hregion : b / 2 ^ 21 = a / 2 ^ 21) :
    ∃ f u w, memoryMap t t.cr3 a a 3 = .ok u ∧ memoryMap u t.cr3 b b 3 = .ok w ∧ Holding pages w ∧ w.cr3 = t.cr3 ∧
      (∀ c, c / 4096 = a / 4096 ∨ c / 4096 = b / 4096 → w.walk32 c = some (c / 4096)) ∧
      (t.table32 (pdOf a) = some f ∨ f = p / 4096) ∧ ∀ g, g ≠ f → g ≠ t.cr3 → w.phys g = t.phys g := by
  have hpd : pdOf a < 256 ∧ pdOf b = pdOf a := by
    rw [pdOf, pdOf, u32_eq (by omega), u32_eq (by omega)]
    omega
  obtain ⟨e, f, u, hu, hi, he, hf⟩ := memoryMap_identity h.recursive ha hlt fun _ => ⟨halloc, fun j => hp.not_table () j⟩
  have hnew : t.table32 (pdOf a) = some f ∨ t.Unused32 f ∧ ∀ q ∈ pages, q.2 / 4096 ≠ f := by
    rcases hf with hold | ⟨-, rfl⟩
    · exact .inl hold
    · exact .inr ⟨hp, hapart⟩
  have hu' := h.install hi (by omega) hnew fun q hq he => by have := hpages q hq; omega
  have htab : u.table32 (pdOf b) = some f := by
    rw [hpd.2]
    exact hi.table
  have hsome : u.table32 (pdOf b) = none → allocPhysPage u.pmm = .ok (p, pmm) ∧ ∀ j, u.table32 j ≠ some (p / 4096) := by
    intro hnone
    rw [htab] at hnone
    cases hnone
  obtain ⟨e', f', w, hw, hi', he', hf'⟩ := memoryMap_identity hu'.recursive hb (by omega) hsome
  have hff : f' = f := by
    rcases hf' with hold | ⟨hnone, -⟩
    · exact Option.some.inj (hold.symm.trans htab)
    · rw [htab] at hnone
      cases hnone
  subst hff
  rw [hi.cr3] at hw
  refine ⟨f', u, w, hu, hw, hu'.install hi' (by omega) (.inl htab) fun q hq he => by have := hpages q hq; omega,
    hi'.cr3.trans hi.cr3, fun c hc => ?_, hf.imp_right And.right, fun g hg hd => funext fun k => ?_⟩
  · by_cases hcb : c / 4096 = b / 4096
    · rw [hi'.walk_page (by omega) he' (by omega) hcb, hcb]
    · have hca := hc.resolve_right hcb
      have hpdc : pdOf c = pdOf b := by
        rw [hpd.2, pdOf, pdOf, u32_eq (by omega), u32_eq (by omega)]
        omega
      rw [hi'.walk_beside (by omega) (by omega) hpdc htab hcb, hi.walk_page (by omega) he (by omega) hca, hca]
  · rw [hi'.frames g k hg (by rw [hi.cr3]; exact hd), hi.frames g k hg hd]

section

variable {S' : VmmState} {n j w : ℕ} {r : ℕ × VmmState}

lemma pageKalloc_rootPd (h : pageKalloc fuel S a b x = .ok r) : (r.2.vmms w).rootPd = (S.vmms w).rootPd := by
  obtain ⟨⟨o, s'⟩, ht, h⟩ := bind_eq_ok.mp h
  have hroot := (vmmTakeRange_frame (w := w) ht).2.2
  rcases o with _ | base
  · obtain rfl := Except.ok.inj h
    exact hroot
  · obtain ⟨q, -, h⟩ := bind_eq_ok.mp h
    obtain rfl := Except.ok.inj h
    exact hroot

lemma transferHalf_rootPd (h : transferHalf fuel S a = .ok r) : (r.2.vmms w).rootPd = (S.vmms w).rootPd := by
  obtain ⟨⟨q, pmm⟩, -, h⟩ := bind_eq_ok.mp h
  obtain ⟨r', hk, h⟩ := bind_eq_ok.mp h
  obtain ⟨q', -, h⟩ := bind_eq_ok.mp h
  obtain rfl := Except.ok.inj h
  have hroot := pageKalloc_rootPd (w := w) hk
  exact hroot

lemma transferTable_rootPd (h : transferTable fuel S a j = .ok S') : (S'.vmms w).rootPd = (S.vmms w).rootPd := by
  obtain ⟨r, h₁, h⟩ := bind_eq_ok.mp h
  obtain ⟨q, -, h⟩ := bind_eq_ok.mp h
  obtain ⟨r', h₂, h⟩ := bind_eq_ok.mp h
  obtain ⟨q', -, h⟩ := bind_eq_ok.mp h
  obtain rfl := Except.ok.inj h
  have hfirst := transferHalf_rootPd (w := w) h₁
  have hsecond := transferHalf_rootPd (w := w) h₂
  exact hsecond.trans hfirst

lemma transferTables_rootPd (h : transferTables fuel a b n j S = .ok S') : (S'.vmms w).rootPd = (S.vmms w).rootPd := by
  induction n generalizing j S with
  | zero =>
    obtain rfl := Except.ok.inj h
    rfl
  | succ n ih =>
    rw [transferTables] at h
    split_ifs at h
    · obtain ⟨S₁, h₁, h⟩ := bind_eq_ok.mp h
      exact (ih h).trans (transferTable_rootPd h₁)
    · exact ih h

lemma transferPagesToPae_rootPd (h : transferPagesToPae fuel S v = .ok r) : (r.2.vmms w).rootPd = (S.vmms w).rootPd := by
  obtain ⟨⟨q, pmm⟩, -, h⟩ := bind_eq_ok.mp h
  obtain ⟨r₁, hk, h⟩ := bind_eq_ok.mp h
  obtain ⟨S₁, ht, h⟩ := bind_eq_ok.mp h
  obtain ⟨q', -, h⟩ := bind_eq_ok.mp h
  obtain rfl := Except.ok.inj h
  have hfirst := pageKalloc_rootPd (w := w) hk
  exact (transferTables_rootPd (w := w) ht).trans hfirst

end

/-- Tables with the recursive slot, and the pages and the frames that will be handed out: for the three tables, for the transfer
and for the table of the code. -/
structure CanEnterPae (fuel : ℕ) (S : VmmState) (v : ℕ) (pdpt pd pt dir next : ℕ × ℕ) (l : List (ℕ × ℕ)) : Prop where
  recursive : S.paging.Recursive32
  bound : ∀ f i, S.paging.phys f i < 2 ^ 32
  sized : S.paging.pmm.numFrames = NUM_FRAMES
  free : ∀ f, S.paging.pmm.bit f = false → S.paging.Unused32 (256 + f)
  kernelRoot : (S.vmms S.kernelVmm).rootPd = S.paging.cr3
  root : (S.vmms v).rootPd = S.paging.cr3
  mappable : Mappable S.paging (pdpt :: pd :: pt :: dir :: (l ++ [next]))
  high : ∀ q ∈ pdpt :: pd :: pt :: dir :: (l ++ [next]), 0xC0000000 ≤ q.1
  supplies : Supplies fuel S (pdpt :: pd :: pt :: dir :: (l ++ [next]))
  length : l.length = 2 * tableCount S.paging 768 256

lemma tableCount_congr {s t : Paging} (h : ∀ j, t.table32 j = s.table32 j) (j n : ℕ) : tableCount t j n = tableCount s j n := by
  induction n generalizing j with
  | zero => rfl
  | succ n ih => rw [tableCount, tableCount, h, ih]

/-- What the three new pages hold when the transfer begins. -/
structure Prepared (s : Paging) (pdpt pd pt : ℕ × ℕ) (t : Paging) : Prop where
  identity : t.phys.read64 (pdpt.2 / 4096) 0 = u32 pd.2 ||| 1
  rest : ∀ i, i ≠ 0 → t.phys.read64 (pdpt.2 / 4096) i = s.phys.read64 (pdpt.2 / 4096) i
  apart : pdpt.2 / 4096 ≠ pd.2 / 4096 ∧ pdpt.2 / 4096 ≠ pt.2 / 4096 ∧ pd.2 / 4096 ≠ pt.2 / 4096

lemma target_identity (ha : a % 2 ^ 10 = 0) (hlt : a < 2 ^ 32) : target (a ||| 3) = some (a / 4096) ∧ a ||| 3 < 2 ^ 64 := by
  obtain ⟨q, rfl⟩ : ∃ q, a = 2 ^ 2 * q := ⟨a / 4, by omega⟩
  have hor : 2 ^ 2 * q ||| 3 = 2 ^ 2 * q + 3 := (Nat.two_pow_add_eq_or_of_lt (by norm_num) q).symm
  refine ⟨?_, by omega⟩
  rw [hor, Paging.target_of_present (by rw [Present]; omega), frameOf]
  exact congrArg some (by omega)

/-- The last four writes, in the directory and the table for the code on `a`. -/
def identityTables (m : Phys) (pd pt : ℕ × ℕ) (a : ℕ) : Phys :=
  let m := m.write64 (pt.2 / 4096) (a / 2 ^ 12 % 2 ^ 9) (a ||| 3)
  let m := m.write64 (pt.2 / 4096) (bytePgroundup a / 2 ^ 12 % 2 ^ 9) (bytePgroundup a ||| 3)
  let m := m.write64 (pd.2 / 4096) (a / 2 ^ 21 % 2 ^ 9) (pt.2 ||| 3)
  m.write64 (pd.2 / 4096) 511 (pd.2 ||| 1)

section

variable {m : Phys} {pd pt : ℕ × ℕ}

lemma identityTables_frame (hd : g ≠ pd.2 / 4096) (ht : g ≠ pt.2 / 4096) : identityTables m pd pt a g = m g := by
  rw [identityTables, Phys.write64_frame hd, Phys.write64_frame hd, Phys.write64_frame ht, Phys.write64_frame ht]

lemma identityTables_table (ha : a / 2 ^ 21 % 2 ^ 9 ≠ 511) (ht : pt.2 < 2 ^ 32) :
    (identityTables m pd pt a).read64 (pd.2 / 4096) (a / 2 ^ 21 % 2 ^ 9) = pt.2 ||| 3 := by
  have hlt : pt.2 ||| 3 < 2 ^ 64 := Nat.or_lt_two_pow (by omega) (by norm_num)
  rw [identityTables]
  exact (Phys.read64_write64_ne fun _ => ha).trans (Phys.read64_write64_self hlt)

lemma identityTables_entry (hne : pd.2 / 4096 ≠ pt.2 / 4096) (ha : a % 2 ^ 10 = 0) (hlt : a < 2 ^ 31)
    (hregion : bytePgroundup a / 2 ^ 21 = a / 2 ^ 21) (hx : x / 4096 = a / 4096 ∨ x / 4096 = bytePgroundup a / 4096) :
    target ((identityTables m pd pt a).read64 (pt.2 / 4096) (x / 2 ^ 12 % 2 ^ 9)) = some (x / 4096) := by
  have hb : bytePgroundup a % 2 ^ 10 = 0 ∧ bytePgroundup a < 2 ^ 32 := by
    rw [bytePgroundup, pageOf, u32]
    omega
  obtain ⟨htarget, hsmall⟩ := target_identity hb.1 hb.2
  obtain ⟨htarget', hsmall'⟩ := target_identity ha (by omega)
  rw [identityTables]
  refine (congrArg target ((Phys.read64_write64_ne fun he => absurd he.symm hne).trans
    (Phys.read64_write64_ne fun he => absurd he.symm hne))).trans ?_
  by_cases hxb : x / 4096 = bytePgroundup a / 4096
  · have hi : x / 2 ^ 12 % 2 ^ 9 = bytePgroundup a / 2 ^ 12 % 2 ^ 9 := by omega
    rw [hi, Phys.read64_write64_self hsmall, htarget, hxb]
  · have hxa := hx.resolve_right hxb
    have hi : x / 2 ^ 12 % 2 ^ 9 = a / 2 ^ 12 % 2 ^ 9 := by omega
    rw [hi, Phys.read64_write64_ne fun _ => by omega, Phys.read64_write64_self hsmall', htarget', hxa]

end

/-- What is in the tables at the switch; `s₁` is the state at the transfer, and `later` and `used` are its pages. -/
structure SwitchTables (s s₁ : Paging) (later used : List (ℕ × ℕ)) (pdpt pd pt dir : ℕ × ℕ) (eip : ℕ) (t : Paging) : Prop where
  code : ∀ a, InSwitch eip a → t.walk32 a = some (a / 4096)
  identity : t.phys.read64 (pdpt.2 / 4096) 0 = u32 pd.2 ||| 1
  kernel : t.phys.read64 (pdpt.2 / 4096) 3 = u32 dir.2 ||| 1
  rest : ∀ i, i ≠ 0 → i ≠ 3 → t.phys.read64 (pdpt.2 / 4096) i = s.phys.read64 (pdpt.2 / 4096) i
  table : t.phys.read64 (pd.2 / 4096) (switchEip eip / 2 ^ 21 % 2 ^ 9) = pt.2 ||| 3
  entry : ∀ a, InSwitch eip a → target (t.phys.read64 (pt.2 / 4096) (a / 2 ^ 12 % 2 ^ 9)) = some (a / 4096)
  moved : ∀ j, 768 ≤ j → j < 1023 → Moved s₁ later used dir t.phys j

namespace CanEnterPae

variable {pdpt pd pt dir next : ℕ × ℕ}

lemma prepared (h : CanEnterPae fuel S v pdpt pd pt dir next l) : ∃ S₁ S₂ S₃ S₄, newTable fuel S = .ok (pdpt.2, pdpt.1, S₁) ∧
    newTable fuel S₁ = .ok (pd.2, pd.1, S₂) ∧ newTable fuel S₂ = .ok (pt.2, pt.1, S₃) ∧
    S₃.storeWords (pdpt.1 + 8 * 0) (u32 pd.2 ||| 1) = .ok S₄ ∧
    Underway fuel S.paging (pdpt :: pd :: pt :: dir :: (l ++ [next])) [pt, pd, pdpt] (dir :: (l ++ [next])) S₄ ∧
    (S₄.vmms v).rootPd = S.paging.cr3 ∧ Prepared S.paging pdpt pd pt S₄.paging := by
  have hl := h.mappable
  have h₀ : Underway fuel S.paging (pdpt :: pd :: pt :: dir :: (l ++ [next])) [] (pdpt :: pd :: pt :: dir :: (l ++ [next])) S := by
    refine ⟨⟨rfl, h.recursive, fun _ => rfl, fun _ _ _ _ _ _ => rfl, h.bound, h.sized, h.free, ?_, ?_, fun _ _ _ => rfl⟩, h.supplies,
      h.kernelRoot, List.Perm.refl _⟩
    · exact fun _ hq => absurd hq List.not_mem_nil
    · exact fun _ hq => absurd hq List.not_mem_nil
  obtain ⟨S₁, hnew₁, h₁, hroot₁, hsame₁, -⟩ := h₀.newTable hl
  obtain ⟨S₂, hnew₂, h₂, hroot₂, hsame₂, hne₂⟩ := h₁.newTable hl
  obtain ⟨S₃, hnew₃, h₃, hroot₃, hsame₃, hne₃⟩ := h₂.newTable hl
  obtain ⟨hst, h₄⟩ := h₃.write64 hl (q := pdpt) (by simp) (show 0 < 512 by norm_num) (u32 pd.2 ||| 1)
  obtain ⟨f, -, hf, hun, -⟩ := h₃.midway.frame pdpt (by simp)
  have hframe : pdpt.2 / 4096 = 256 + f := by omega
  have hold : S₃.paging.phys (pdpt.2 / 4096) = S.paging.phys (pdpt.2 / 4096) := by
    rw [hframe, hsame₃ _ hun, hsame₂ _ hun, hsame₁ _ hun]
  have hsmall : u32 pd.2 ||| 1 < 2 ^ 64 := by
    have hlt : u32 pd.2 < 2 ^ 64 := (Nat.mod_lt _ (by norm_num)).trans (by norm_num)
    exact Nat.or_lt_two_pow hlt (by norm_num)
  refine ⟨S₁, S₂, S₃, _, hnew₁, hnew₂, hnew₃, ?_, h₄, ?_, ?_, fun i hi => ?_, hne₂ pdpt (by simp), hne₃ pdpt (by simp),
    hne₃ pd (by simp)⟩
  · rw [VmmState.storeWords, hst]
    rfl
  · exact ((hroot₃ v).trans (hroot₂ v)).trans ((hroot₁ v).trans h.root)
  · exact Phys.read64_write64_self hsmall
  · exact (Phys.read64_write64_ne fun _ => hi).trans (Phys.read64_frame hold)

/-- After the transfer the three pages are where they were and hold what they held. -/
lemma transferred (h : CanEnterPae fuel S v pdpt pd pt dir next l) : ∃ S₁ S₂ S₃ S₄ S₅ used,
    newTable fuel S = .ok (pdpt.2, pdpt.1, S₁) ∧ newTable fuel S₁ = .ok (pd.2, pd.1, S₂) ∧ newTable fuel S₂ = .ok (pt.2, pt.1, S₃) ∧
      S₃.storeWords (pdpt.1 + 8 * 0) (u32 pd.2 ||| 1) = .ok S₄ ∧ transferPagesToPae fuel S₄ v = .ok (dir.2, S₅) ∧
      Midway S.paging (pdpt :: pd :: pt :: dir :: (l ++ [next])) [pt, pd, pdpt] S₄.paging ∧
      Underway fuel S₄.paging (dir :: (l ++ [next])) used [next] S₅ ∧ Mappable S₄.paging (dir :: (l ++ [next])) ∧ dir ∈ used ∧
      (∀ j, 768 ≤ j → j < 1023 → Moved S₄.paging (dir :: (l ++ [next])) used dir S₅.paging.phys j) ∧
      (S₅.vmms v).rootPd = S.paging.cr3 ∧ Prepared S.paging pdpt pd pt S₅.paging ∧ Holding [pt, pd, pdpt] S₅.paging ∧
      ∀ q ∈ [pt, pd, pdpt], ∀ q' ∈ used ++ [next], q'.2 / 4096 ≠ q.2 / 4096 := by
  obtain ⟨S₁, S₂, S₃, S₄, hnew₁, hnew₂, hnew₃, hst, h₄, hroot, hprep⟩ := h.prepared
  obtain ⟨hbase, hl'⟩ := h₄.rebase h.mappable
  have hcount : l.length = 2 * tableCount S₄.paging 768 256 := by
    rw [tableCount_congr h₄.midway.tables]
    exact h.length
  obtain ⟨used, S₅, htransfer, h₅, hdir, hmoved⟩ :=
    hbase.transferPages (v := v) hl' rfl (hroot.trans h₄.midway.cr3.symm) hcount
  have hlater : ∀ q' ∈ used ++ [next], q' ∈ dir :: (l ++ [next]) := fun q' hq' => h₅.perm.mem_iff.mp hq'
  have hapart : ∀ q ∈ [pt, pd, pdpt], ∀ q' ∈ used ++ [next], q'.2 / 4096 ≠ q.2 / 4096 :=
    fun q hq q' hq' => h₄.apart q hq q' (hlater q' hq')
  have hnodup : (([pt, pd, pdpt] ++ dir :: (l ++ [next])).map Prod.fst).Nodup := (h₄.perm.map Prod.fst).nodup_iff.mpr h.mappable.nodup
  rw [List.map_append] at hnodup
  have hpages : ∀ q ∈ [pt, pd, pdpt], q.1 ∉ (dir :: (l ++ [next])).map Prod.fst := fun q hq hmem =>
    (List.nodup_append.mp hnodup).2.2 q.1 (List.mem_map_of_mem hq) q.1 hmem rfl
  have hsame : ∀ q ∈ [pt, pd, pdpt], S₅.paging.phys (q.2 / 4096) = S₄.paging.phys (q.2 / 4096) := by
    intro q hq
    obtain ⟨f, -, hf, hun, -⟩ := h₄.midway.frame q hq
    have hframe : q.2 / 4096 = 256 + f := by omega
    refine h₅.midway.others _ ?_ fun q' hq' => hapart q hq q' (List.mem_append_left _ hq')
    rw [hframe]
    exact h₄.midway.unused_iff.mpr hun
  refine ⟨S₁, S₂, S₃, S₄, S₅, used, hnew₁, hnew₂, hnew₃, hst, htransfer, h₄.midway, h₅, hl', hdir, hmoved,
    (transferPagesToPae_rootPd htransfer).trans hroot, ⟨?_, fun i hi => ?_, hprep.apart⟩, ?_, hapart⟩
  · exact (Phys.read64_frame (hsame pdpt (by simp))).trans hprep.identity
  · exact (Phys.read64_frame (hsame pdpt (by simp))).trans (hprep.rest i hi)
  · exact .of_stages h₄.midway h.mappable h₅.midway hl' hpages

lemma built (h : CanEnterPae fuel S v pdpt pd pt dir next l) (hlow : switchEip eip < 0x3fe00000)
    (hregion : bytePgroundup (switchEip eip) / 2 ^ 21 = switchEip eip / 2 ^ 21) : ∃ s₁ used S',
      buildPae fuel S v eip = .ok (pdpt.2, pdpt.1, S') ∧
      Midway S.paging (pdpt :: pd :: pt :: dir :: (l ++ [next])) [pt, pd, pdpt] s₁ ∧ Mappable s₁ (dir :: (l ++ [next])) ∧
      dir ∈ used ∧ (∀ q ∈ used, ∃ f < 2 ^ 19, q.2 = 4096 * (256 + f)) ∧
      SwitchTables S.paging s₁ (dir :: (l ++ [next])) used pdpt pd pt dir eip S'.paging := by
  obtain ⟨S₁, S₂, S₃, S₄, S₅, used, hnew₁, hnew₂, hnew₃, hst₀, htransfer, h₄, h₅, hl', hdir, hmoved, hroot, hprep, hhold, hapart⟩ :=
    h.transferred
  have hp : pdpt ∈ [pt, pd, pdpt] := by simp
  have hd : pd ∈ [pt, pd, pdpt] := by simp
  have ht : pt ∈ [pt, pd, pdpt] := by simp
  -- the entry of the PDPT for the kernel
  obtain ⟨hst₃, hhold₃, htab₃, -⟩ := hhold.storeWords hp (show 3 < 512 by norm_num) (u32 dir.2 ||| 1)
  set t₃ : Paging := { S₅.paging with phys := S₅.paging.phys.write64 (pdpt.2 / 4096) 3 (u32 dir.2 ||| 1) } with ht₃
  have hun₃ : ∀ g, S₄.paging.Unused32 g → t₃.Unused32 g := by
    intro g hg
    have hg₅ := h₅.midway.unused_iff.mpr hg
    exact ⟨hg₅.not_dir, fun _ j htab => hg₅.not_table () j ((htab₃ j).symm.trans htab)⟩
  -- the pages of the code
  obtain ⟨pmm, halloc⟩ : ∃ pmm, allocPhysPage t₃.pmm = .ok (next.2, pmm) := by
    cases h₅.supplies with
    | cons ha => exact ⟨_, ha⟩
  obtain ⟨fnext, -, hfnext, hbit⟩ := h₅.supplies.free h₅.midway.sized next (by simp)
  have hnext : next.2 / 4096 = 256 + fnext := by omega
  have hunext : t₃.Unused32 (next.2 / 4096) := by
    rw [hnext]
    exact hun₃ _ (h₅.midway.free fnext hbit)
  have hhigh : ∀ q ∈ [pt, pd, pdpt], 768 ≤ pdOf q.1 := by
    intro q hq
    have hall := h.high q (h₄.page q hq).1
    have hlt := (hhold.page q hq).2
    rw [RECURSIVE_ADDR] at hlt
    rw [pdOf, u32_eq (by omega)]
    omega
  have ha : switchEip eip % 2 ^ 10 = 0 := by
    rw [switchEip]
    omega
  have hb : bytePgroundup (switchEip eip) % 2 ^ 10 = 0 := by
    rw [bytePgroundup, pageOf]
    omega
  obtain ⟨f, u, w, hu, hw, hholdw, hcr, hcode, hf, hframes⟩ := hhold₃.identity hhigh halloc hunext
    (fun q hq he => hapart q hq next (by simp) he.symm) ha hb hlow hregion
  have hkeep : ∀ g, t₃.Unused32 g → g ≠ next.2 / 4096 → w.phys g = t₃.phys g := by
    intro g hg hne
    refine hframes g (fun hgf => ?_) fun hgd => hg.not_dir () (congrArg some hgd.symm)
    rcases hf with hold | hnew
    · exact hg.not_table () _ (hgf ▸ hold)
    · exact hne (hgf.trans hnew)
  -- the tables for the code
  have hi : switchEip eip / 2 ^ 12 % 2 ^ 9 < 512 := Nat.mod_lt _ (by norm_num)
  have hi' : bytePgroundup (switchEip eip) / 2 ^ 12 % 2 ^ 9 < 512 := Nat.mod_lt _ (by norm_num)
  have hj : switchEip eip / 2 ^ 21 % 2 ^ 9 < 511 := by omega
  obtain ⟨hst₄, hhold₄, -, hwalk₄⟩ := hholdw.storeWords ht hi (switchEip eip ||| 3)
  obtain ⟨hst₅, hhold₅, -, hwalk₅⟩ := hhold₄.storeWords ht hi' (bytePgroundup (switchEip eip) ||| 3)
  obtain ⟨hst₆, hhold₆, -, hwalk₆⟩ := hhold₅.storeWords hd (hj.trans (by norm_num)) (pt.2 ||| 3)
  obtain ⟨hst₇, -, -, hwalk₇⟩ := hhold₆.storeWords hd (show 511 < 512 by norm_num) (pd.2 ||| 1)
  obtain ⟨hpd, hpt, hdt⟩ := hprep.apart
  obtain ⟨fpt, hfpt, hptq, -⟩ := h₄.frame pt ht
  have hfr : ∀ q ∈ used, ∃ f < 2 ^ 19, q.2 = 4096 * (256 + f) := by
    intro q hq
    obtain ⟨f, hf, hqf, -⟩ := h₅.midway.frame q hq
    exact ⟨f, hf, hqf⟩
  have hpdpt := hkeep _ (hhold₃.unused pdpt hp) fun he => hapart pdpt hp next (by simp) he.symm
  have hused : ∀ q ∈ used, w.phys (q.2 / 4096) = S₅.paging.phys (q.2 / 4096) := by
    intro q hq
    obtain ⟨f, -, hqf, hun, -⟩ := h₅.midway.frame q hq
    have hframe : q.2 / 4096 = 256 + f := by omega
    have hne : q.2 / 4096 ≠ next.2 / 4096 := fun he => h₅.apart q hq next (by simp) he.symm
    rw [hkeep _ (by rw [hframe]; exact hun₃ _ hun) hne, ht₃]
    exact Phys.write64_frame (hapart pdpt hp q (List.mem_append_left _ hq))
  have hfinal : ∀ g, g ≠ pd.2 / 4096 → g ≠ pt.2 / 4096 → identityTables w.phys pd pt (switchEip eip) g = w.phys g :=
    fun g hgd hgt => identityTables_frame hgd hgt
  have hwalk : ∀ c < 2 ^ 32,
      ({ w with phys := identityTables w.phys pd pt (switchEip eip) } : Paging).walk32 c = w.walk32 c := by
    intro c hc
    have h₇ := hwalk₇ c hc
    rw [hwalk₆ c hc, hwalk₅ c hc, hwalk₄ c hc] at h₇
    exact h₇
  have hdirs : identityTables w.phys pd pt (switchEip eip) (pdpt.2 / 4096) = t₃.phys (pdpt.2 / 4096) :=
    (hfinal _ hpd hpt).trans hpdpt
  refine ⟨S₄.paging, used, S₅.withPaging { w with phys := identityTables w.phys pd pt (switchEip eip) }, ?_, h₄, hl', hdir, hfr,
    fun c hc => ?_, ?_, ?_, fun i hi₀ hi₃ => ?_, ?_, fun c hc => ?_, fun j hj hj' => ?_⟩
  · have hroot₅ : (S₅.vmms v).rootPd = t₃.cr3 := hroot.trans (h₅.midway.cr3.trans h₄.cr3).symm
    have hst₃' : S₅.storeWords (pdpt.1 + 8 * 3) (u32 dir.2 ||| 1) = .ok (S₅.withPaging t₃) := VmmState.storeWords_paging hst₃
    rw [buildPae, hnew₁, ok_bind]
    dsimp only
    rw [hnew₂, ok_bind]
    dsimp only
    rw [hnew₃, ok_bind]
    dsimp only
    rw [hst₀, ok_bind, htransfer, ok_bind]
    dsimp only
    rw [hst₃', ok_bind, VmmState.mapIdentity_paging hroot₅ hu, ok_bind, VmmState.mapIdentity_paging hroot₅ hw,
      ok_bind, VmmState.storeWords_paging hst₄, ok_bind, VmmState.storeWords_paging hst₅, ok_bind, VmmState.storeWords_paging hst₆,
      ok_bind, VmmState.storeWords_paging hst₇, ok_bind]
    rfl
  · have hlt : c < 2 ^ 32 := by
      rcases hc with hc | hc
      · omega
      · omega
    change ({ w with phys := identityTables w.phys pd pt (switchEip eip) } : Paging).walk32 c = _
    rw [hwalk c hlt, hcode c hc]
  · exact (Phys.read64_frame hdirs).trans ((Phys.read64_write64_ne fun _ => by norm_num).trans hprep.identity)
  · have hsmall : u32 dir.2 ||| 1 < 2 ^ 64 :=
      Nat.or_lt_two_pow ((Nat.mod_lt _ (by norm_num)).trans (by norm_num)) (by norm_num)
    exact (Phys.read64_frame hdirs).trans (Phys.read64_write64_self hsmall)
  · exact (Phys.read64_frame hdirs).trans ((Phys.read64_write64_ne fun _ => hi₃).trans (hprep.rest i hi₀))
  · exact identityTables_table (by omega) (by omega)
  · exact identityTables_entry hdt ha (by omega) hregion hc
  · have hsame : ∀ q ∈ used, identityTables w.phys pd pt (switchEip eip) (q.2 / 4096) = S₅.paging.phys (q.2 / 4096) := by
      intro q hq
      have hq' := List.mem_append_left [next] hq
      exact (hfinal _ (hapart pd hd q hq') (hapart pt ht q hq')).trans (hused q hq)
    exact (hmoved j hj hj').mono (fun _ hq => hq) (fun q hq _ => hsame q hq) fun i _ => Phys.read64_frame (hsame dir hdir)

lemma withBits (h : CanEnterPae fuel S v pdpt pd pt dir next l) (n : ℕ) :
    CanEnterPae fuel (S.withPaging { S.paging with maxBitExtension := n }) v pdpt pd pt dir next l where
  recursive := h.recursive
  bound := h.bound
  sized := h.sized
  free := h.free
  kernelRoot := h.kernelRoot
  root := h.root
  mappable := ⟨h.mappable.page, h.mappable.nodup⟩
  high := h.high
  supplies := h.supplies.withPaging rfl
  length := by
    have htab : ∀ j, ({ S.paging with maxBitExtension := n } : Paging).table32 j = S.paging.table32 j := fun _ => rfl
    change l.length = 2 * tableCount { S.paging with maxBitExtension := n } 768 256
    rw [tableCount_congr htab]
    exact h.length

end CanEnterPae

/-- An entry of the PDPT as the kernel makes them. -/
lemma pdpte_page (hg : g < 2 ^ 20) : u32 (4096 * g) ||| 1 = 4096 * g + 1 := by
  rw [u32_eq (by omega)]
  exact (Nat.two_pow_add_eq_or_of_lt (i := 12) (by norm_num) g).symm

lemma validPdpte_page (hg : g < 2 ^ 20) (hbits : 32 ≤ bits) : ValidPdpte bits (u32 (4096 * g) ||| 1) := by
  have hpow : 2 ^ 32 ≤ 2 ^ bits := Nat.pow_le_pow_right (by norm_num) hbits
  intro _
  rw [pdpte_page hg]
  omega

lemma target_pdpte (hg : g < 2 ^ 20) : target (u32 (4096 * g) ||| 1) = some g := by
  rw [pdpte_page hg, Paging.target_of_present (by rw [Present]; omega), frameOf]
  exact congrArg some (by omega)

lemma walk64_congr (hp : s.phys = t.phys) (he : s.pdpt (a / 2 ^ 30) = t.pdpt (a / 2 ^ 30)) : s.walk64 a = t.walk64 a := by
  rw [Paging.walk64, Paging.walk64, hp, he]

lemma walk64_of_tables {d : ℕ} (hd : target (s.pdpt (a / 2 ^ 30)) = some d)
    (hf : target (s.phys.read64 d (a / 2 ^ 21 % 2 ^ 9)) = some f) :
    s.walk64 a = target (s.phys.read64 f (a / 2 ^ 12 % 2 ^ 9)) := by
  obtain ⟨hpd, hd⟩ := Option.ite_none_right_eq_some.mp hd
  obtain rfl := Option.some.inj hd
  obtain ⟨hpt, hf⟩ := Option.ite_none_right_eq_some.mp hf
  rw [Paging.walk64]
  simp only [if_pos hpd, if_pos hpt, Option.some.inj hf]
  rfl

namespace SwitchTables

variable {s₁ : Paging} {later : List (ℕ × ℕ)} {pdpt pd pt dir : ℕ × ℕ}

lemma enablePae_iff (h : SwitchTables s s₁ later used pdpt pd pt dir eip t) (hpd : ∃ g < 2 ^ 20, pd.2 = 4096 * g)
    (hdir : ∃ g < 2 ^ 20, dir.2 = 4096 * g) (hbits : 32 ≤ bits) : (∃ u, enablePae t pdpt.2 bits = .ok u) ↔
      ValidPdpte bits (s.phys.read64 (pdpt.2 / 4096) 1) ∧ ValidPdpte bits (s.phys.read64 (pdpt.2 / 4096) 2) := by
  obtain ⟨g, hg, hpd⟩ := hpd
  obtain ⟨g', hg', hdir⟩ := hdir
  have hiff : (∀ i : Fin 4, ValidPdpte bits (t.phys.read64 (pdpt.2 / 4096) i)) ↔
      ValidPdpte bits (s.phys.read64 (pdpt.2 / 4096) 1) ∧ ValidPdpte bits (s.phys.read64 (pdpt.2 / 4096) 2) := by
    rw [← h.rest 1 (by norm_num) (by norm_num), ← h.rest 2 (by norm_num) (by norm_num)]
    refine ⟨fun hv => ⟨hv 1, hv 2⟩, fun hv i => ?_⟩
    fin_cases i
    · change ValidPdpte bits (t.phys.read64 _ 0)
      rw [h.identity, hpd]
      exact validPdpte_page hg hbits
    · exact hv.1
    · exact hv.2
    · change ValidPdpte bits (t.phys.read64 _ 3)
      rw [h.kernel, hdir]
      exact validPdpte_page hg' hbits
  rw [← hiff, enablePae]
  split_ifs with hv
  · exact iff_of_true ⟨_, rfl⟩ hv
  · refine iff_of_false (fun hu => ?_) hv
    obtain ⟨_, hu⟩ := hu
    cases hu

lemma walk_code (h : SwitchTables s s₁ later used pdpt pd pt dir eip t) (hpd : ∃ g < 2 ^ 20, pd.2 = 4096 * g)
    (hpt : ∃ g < 2 ^ 20, pt.2 = 4096 * g) (hlow : switchEip eip < 0x3fe00000)
    (hregion : bytePgroundup (switchEip eip) / 2 ^ 21 = switchEip eip / 2 ^ 21) (ha : InSwitch eip a) :
    ({ t with cr3 := pdpt.2 / 4096, pdpt := t.phys.read64 (pdpt.2 / 4096) } : Paging).walk64 a = some (a / 4096) := by
  obtain ⟨g, hg, hpd⟩ := hpd
  obtain ⟨g', hg', hpt⟩ := hpt
  have hi : a / 2 ^ 30 = 0 ∧ a / 2 ^ 21 % 2 ^ 9 = switchEip eip / 2 ^ 21 % 2 ^ 9 := by
    rcases ha with ha | ha
    · omega
    · omega
  rw [walk64_of_tables (d := pd.2 / 4096) (f := pt.2 / 4096)]
  · exact h.entry a ha
  · change target (t.phys.read64 (pdpt.2 / 4096) (a / 2 ^ 30)) = _
    rw [hi.1, h.identity, hpd, target_pdpte hg, Nat.mul_div_cancel_left g (by norm_num)]
  · change target (t.phys.read64 (pd.2 / 4096) _) = _
    rw [hi.2, h.table, (target_identity (by omega) (by omega)).1]

lemma walk_kernel {f : ℕ} (h : SwitchTables s s₁ later used pdpt pd pt dir eip t) (hl : Mappable s₁ later) (hv : Kept32 later a)
    (ht : s₁.table32 (pdOf a) = some f) (hlow : ptOf a < 512) (hdir : dir ∈ used)
    (hframes : ∀ q ∈ used, ∃ f < 2 ^ 19, q.2 = 4096 * (256 + f)) :
    ({ t with cr3 := pdpt.2 / 4096, pdpt := t.phys.read64 (pdpt.2 / 4096) } : Paging).walk64 a = s₁.walk32 a := by
  obtain ⟨hthree, hj, hj', -⟩ := hv.indices
  obtain ⟨g, hg, hq⟩ := hframes dir hdir
  rw [← (h.moved _ hj hj').walk_first hl hv ht hlow ⟨256 + g, by omega, hq, by omega⟩ hframes]
  refine walk64_congr rfl ?_
  change t.phys.read64 (pdpt.2 / 4096) (a / 2 ^ 30) = Function.update t.pdpt 3 (dir.2 ||| 1) (a / 2 ^ 30)
  rw [hthree, Function.update_self, h.kernel, u32_eq (by omega)]

end SwitchTables

lemma initPae_eq {cpuid : ℕ → ℕ} {S' : VmmState} (hpae : cpuid 0x01 &&& 2 ^ 6 ≠ 0)
    (h : buildPae fuel (S.withPaging { S.paging with maxBitExtension := cpuid 0x80000008 % 2 ^ 8 }) v eip = .ok (p, a, S')) :
    initPae fuel S v cpuid eip = (enablePae S'.paging p (cpuid 0x80000008 % 2 ^ 8)).map fun u => (a, S'.withPaging u) := by
  rw [initPae, if_neg hpae]
  change (do
    let (pdptPhys, pdptPage, s) ← buildPae fuel (S.withPaging _) v eip
    let paging ← enablePae s.paging pdptPhys _
    return (pdptPage, s.withPaging paging)) = _
  rw [h, ok_bind]
  dsimp only
  cases enablePae S'.paging p (cpuid 0x80000008 % 2 ^ 8) with
  | error e => rfl
  | ok u => rfl

/-- The code that turns PAE on stays where it is: its pages lie at their own addresses under the directory before the switch, and
under the new tables after it, which translate the kernel as the directory did, if in the first halves of its tables. The switch
goes through if and only if the entries of the PDPT that nobody writes are valid as the frame had them. -/
theorem initPae_switches {cpuid : ℕ → ℕ} {pdpt pd pt dir next : ℕ × ℕ} (h : CanEnterPae fuel S v pdpt pd pt dir next l)
    (hpae : cpuid 0x01 &&& 2 ^ 6 ≠ 0) (hbits : 32 ≤ cpuid 0x80000008 % 2 ^ 8) (hlow : switchEip eip < 0x3fe00000)
    (hregion : bytePgroundup (switchEip eip) / 2 ^ 21 = switchEip eip / 2 ^ 21) :
    (∃ S', buildPae fuel (S.withPaging { S.paging with maxBitExtension := cpuid 0x80000008 % 2 ^ 8 }) v eip =
        .ok (pdpt.2, pdpt.1, S') ∧ ∀ a, InSwitch eip a → S'.paging.walk32 a = some (a / 4096)) ∧
      ((∃ r, initPae fuel S v cpuid eip = .ok r) ↔ ValidPdpte (cpuid 0x80000008 % 2 ^ 8) (S.paging.phys.read64 (pdpt.2 / 4096) 1) ∧
        ValidPdpte (cpuid 0x80000008 % 2 ^ 8) (S.paging.phys.read64 (pdpt.2 / 4096) 2)) ∧
      ∀ r, initPae fuel S v cpuid eip = .ok r → r.1 = pdpt.1 ∧ (∀ a, InSwitch eip a → r.2.paging.walk64 a = some (a / 4096)) ∧
        ∀ a, Kept32 (pdpt :: pd :: pt :: dir :: (l ++ [next])) a → ptOf a < 512 → (S.paging.walk32 a).isSome →
          r.2.paging.walk64 a = S.paging.walk32 a := by
  obtain ⟨s₁, used, S', hbuild, h₁, hl, hdir, hframes, hsw⟩ := (h.withBits (cpuid 0x80000008 % 2 ^ 8)).built hlow hregion
  have hpages : ∀ q ∈ [pt, pd, pdpt], ∃ g < 2 ^ 20, q.2 = 4096 * g := by
    intro q hq
    obtain ⟨f, hf, hqf, -⟩ := h₁.frame q hq
    exact ⟨256 + f, by omega, hqf⟩
  have hdirq : ∃ g < 2 ^ 20, dir.2 = 4096 * g := by
    obtain ⟨f, hf, hqf⟩ := hframes dir hdir
    exact ⟨256 + f, by omega, hqf⟩
  have hrun := initPae_eq hpae hbuild
  refine ⟨⟨S', hbuild, hsw.code⟩, ?_, fun r hr => ?_⟩
  · refine Iff.trans ?_ (hsw.enablePae_iff (hpages pd (by simp)) hdirq hbits)
    rw [hrun]
    cases enablePae S'.paging pdpt.2 (cpuid 0x80000008 % 2 ^ 8) with
    | error e => exact iff_of_false (fun ⟨_, hr⟩ => by cases hr) fun ⟨_, hr⟩ => by cases hr
    | ok u => exact iff_of_true ⟨_, rfl⟩ ⟨_, rfl⟩
  · rw [hrun, enablePae] at hr
    split_ifs at hr
    · obtain rfl := Except.ok.inj hr
      refine ⟨rfl, fun a ha => hsw.walk_code (hpages pd (by simp)) (hpages pt (by simp)) hlow hregion ha, fun a ha hlt hsome => ?_⟩
      have hlow' : a < RECURSIVE_ADDR := ha.2.1
      have hlater : Kept32 (dir :: (l ++ [next])) a := by
        refine ⟨ha.1, hlow', fun hmem => ha.2.2 ?_⟩
        simp only [List.map_cons, List.mem_cons] at hmem ⊢
        exact .inr (.inr (.inr hmem))
      have hkept := h₁.walk_kept (h.withBits _).mappable hlow' ha.2.2
      have htab : ∃ f, s₁.table32 (pdOf a) = some f := by
        cases hf : s₁.table32 (pdOf a) with
        | none =>
          have hnone : S.paging.walk32 a = none := hkept.symm.trans (walk32_of_none (hlow'.trans (by decide)) hf)
          rw [hnone] at hsome
          cases hsome
        | some f => exact ⟨f, rfl⟩
      obtain ⟨f, hf⟩ := htab
      exact (hsw.walk_kernel hl hlater hf hlt hdir hframes).trans hkept
    · cases hr

def ninePages : List (ℕ × ℕ) := (List.range 9).map fun i => (0xCC000000 + 4096 * i, 0x100000 + 4096 * i)

lemma kernelWith_canEnterPae : CanEnterPae 20 (kernelWith 100) 0x1000 (0xCC000000, 0x100000) (0xCC001000, 0x101000)
    (0xCC002000, 0x102000) (0xCC003000, 0x103000) (0xCC008000, 0x108000)
    [(0xCC004000, 0x104000), (0xCC005000, 0x105000), (0xCC006000, 0x106000), (0xCC007000, 0x107000)] := by
  have h := kernelWith_canTransfer (k := 100) (by decide +kernel) (by decide +kernel)
  have hout : (handOut 20 9 (kernelWith 100)).toOption.map (fun l => decide (l = ninePages)) = some true := by decide +kernel
  obtain ⟨l, hl, hd⟩ := exists_of_toOption_map hout
  obtain rfl := of_decide_eq_true hd
  have hpages : ∀ q ∈ ninePages, 0xC0000000 ≤ q.1 ∧ IsPage q.1 ∧ pdOf q.1 = 816 := by
    have : ∀ q ∈ ninePages, 0xC0000000 ≤ q.1 ∧ (q.1 % 4096 = 0 ∧ q.1 + 4096 ≤ RECURSIVE_ADDR) ∧ pdOf q.1 = 816 := by decide
    exact this
  refine ⟨h.recursive, h.bound, h.sized, h.free, h.kernelRoot, h.root, ⟨fun q hq => ?_, by decide⟩, fun q hq => (hpages q hq).1,
    supplies_handOut hl, ?_⟩
  · obtain ⟨-, hpage, hpd⟩ := hpages q hq
    refine ⟨hpage, 2, ?_⟩
    rw [hpd]
    exact onePage_table_some
  · have hcount : tableCount (onePage 100) 768 256 = 2 := by decide +kernel
    rw [show (kernelWith 100).paging = onePage 100 from rfl, hcount]
    rfl

/-- PAE, and 36 bits of an address. -/
def pae36 (leaf : ℕ) : ℕ := if leaf = 1 then 2 ^ 6 else 36

/-- From the table with the page of index 100, for code a little above one MiB. -/
theorem initPae_switches_one : ∃ r, initPae 20 (kernelWith 100) 0x1000 pae36 0xC0100567 = .ok r ∧
    r.2.paging.walk64 0x100567 = some 0x100 ∧ r.2.paging.walk64 0xCC064000 = some 9 := by
  have hzero : ∀ i, ValidPdpte 36 ((kernelWith 100).paging.phys.read64 (0x100000 / 4096) i) := by
    intro i
    have hi : (kernelWith 100).paging.phys.read64 (0x100000 / 4096) i = 0 := by simp [kernelWith, Phys.read64, onePage, oneTable]
    rw [hi]
    decide
  have hwalk : (kernelWith 100).paging.walk32 0xCC064000 = some 9 := by decide +kernel
  obtain ⟨-, hiff, hres⟩ := initPae_switches kernelWith_canEnterPae (show pae36 0x01 &&& 2 ^ 6 ≠ 0 by decide) (by decide)
    (show switchEip 0xC0100567 < 0x3fe00000 by decide) (by decide)
  obtain ⟨r, hr⟩ := hiff.mpr ⟨hzero 1, hzero 2⟩
  obtain ⟨-, hcode, hkernel⟩ := hres r hr
  refine ⟨r, hr, hcode 0x100567 (.inl (by decide)), ?_⟩
  rw [hkernel 0xCC064000 ⟨by decide, by decide, by decide⟩ (by decide) (by rw [hwalk]; rfl), hwalk]

end WordOS.Memory
