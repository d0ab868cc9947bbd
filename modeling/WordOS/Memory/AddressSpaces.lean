import WordOS.Memory.Directories

/-! Runs of the paging functions while processes are made and switched to: each process keeps the mappings of its own first two
GiB, and all share those of the last one. -/

namespace WordOS.Memory

open Machine Lib Lib.Runs

/-- The parts of the address spaces that have mappings of their own: the last GiB, the same for all processes, and the first two
GiB of each. The third one is left out, as `pae_unmap` frees the frame of its page directory. -/
inductive Part
  | kernel
  | low (v : ℕ)
  | mid (v : ℕ)
  deriving DecidableEq

def Part.pdpte : Part → ℕ
  | .kernel => 3
  | .low _ => 0
  | .mid _ => 1

/-- Where an address belongs while the directories of the VMM `loaded` are in the PDPT. -/
def partOf (loaded : Option ℕ) (virt : ℕ) : Option Part :=
  if pdpteOf virt = 3 then some .kernel
  else loaded.bind fun v => if pdpteOf virt = 0 then some (.low v) else if pdpteOf virt = 1 then some (.mid v) else none

/-- The VMMs made for processes, the one whose directories are in the PDPT, and the pages that are handed out. -/
structure Processes where
  spaces : Spaces
  made : List ℕ
  loaded : Option ℕ
  held : List ℕ

namespace Processes

variable (s : Processes)

def paging : Paging := s.spaces.vmm.paging

def vmm (v : ℕ) : Vmm := s.spaces.vmm.vmms v

def withPaging (p : Paging) : Processes := { s with spaces := s.spaces.withPaging p }

/-- The frame of the page directory of each part. -/
def dir : Part → Option ℕ
  | .kernel => s.paging.directory 3
  | .low v => if v ∈ s.made then some ((s.vmm v).pdLow / 4096) else none
  | .mid v => if v ∈ s.made then some ((s.vmm v).pdMid / 4096) else none

end Processes

/-- The fields of a VMM that `set_current_vmm` reads. -/
def directoriesOf (x : Vmm) : ℕ × ℕ × ℕ := (x.pdLow, x.pdMid, x.pdHigh)

section

variable {s u : VmmState} {fuel v w length base size id : ℕ} {o : Option ℕ}

section

variable {α : Type} {f : Vmm → α} (hf : ∀ x r, f { x with root := r } = f x)
include hf

lemma setTree_field {t : Utils.RbState} : f ((s.setTree v t).vmms w) = f (s.vmms w) := by
  by_cases h : w = v
  · subst h
    simp [VmmState.setTree, hf]
  · rw [VmmState.setTree_vmms_ne h]

lemma vmmMakeNode_field (h : vmmMakeNode fuel s v base size id = .ok u) : f (u.vmms w) = f (s.vmms w) := by
  obtain ⟨⟨p, t⟩, -, h⟩ := bind_eq_ok.mp h
  obtain rfl := Except.ok.inj h
  exact setTree_field hf

lemma dropRange_field {best : Utils.Ptr} (h : dropRange fuel s v best = .ok (o, u)) : f (u.vmms w) = f (s.vmms w) := by
  obtain ⟨n, -, h⟩ := bind_eq_ok.mp h
  obtain ⟨t, -, h⟩ := bind_eq_ok.mp h
  obtain ⟨-, rfl⟩ := Prod.mk.inj (Except.ok.inj h)
  exact setTree_field hf

/-- The work on the trees of free ranges changes nothing of the VMMs but their roots. -/
lemma vmmTakeRange_field (h : vmmTakeRange fuel s v length = .ok (o, u)) : f (u.vmms w) = f (s.vmms w) := by
  rw [vmmTakeRange_dropRange] at h
  split_ifs at h
  · obtain ⟨-, rfl⟩ := Prod.mk.inj (Except.ok.inj h)
    rfl
  obtain ⟨best, -, h⟩ := bind_eq_ok.mp h
  split_ifs at h
  · obtain ⟨-, rfl⟩ := Prod.mk.inj (Except.ok.inj h)
    rfl
  obtain ⟨b, -, h⟩ := bind_eq_ok.mp h
  split_ifs at h
  · obtain ⟨s', hm, h⟩ := bind_eq_ok.mp h
    exact (dropRange_field hf h).trans (vmmMakeNode_field hf hm)
  · exact dropRange_field hf h

end

lemma vmmTakeRange_directories (h : vmmTakeRange fuel s v length = .ok (o, u)) :
    directoriesOf (u.vmms w) = directoriesOf (s.vmms w) :=
  vmmTakeRange_field (fun _ _ => rfl) h

lemma createVmm_directories {rootPd lo hi storePage : ℕ} (h0 : storePage ≠ 0)
    (h : createVmm fuel s rootPd lo hi storePage = .ok (v, u)) :
    v = storePage ∧ ∀ w, w ≠ v → directoriesOf (u.vmms w) = directoriesOf (s.vmms w) := by
  simp only [createVmm, if_neg h0, pure_eq, ok_bind] at h
  obtain ⟨u', hu, h⟩ := bind_eq_ok.mp h
  obtain ⟨rfl, rfl⟩ := Prod.mk.inj (Except.ok.inj h)
  refine ⟨rfl, fun w hw => (vmmMakeNode_field (f := directoriesOf) (fun _ _ => rfl) hu).trans ?_⟩
  simp only [storeVmm, Function.update_of_ne hw]

end

lemma recordPdptes_parts {s t : Spaces} {fuel v a : ℕ} (h : recordPdptes fuel s = .ok (v, a, t)) :
    ∃ low mid high pmm₁ pmm₂ pmm₃ pmm₄ r s₁ x p, allocPhysPage s.vmm.paging.pmm = .ok (low, pmm₁) ∧
      allocPhysPage pmm₁ = .ok (mid, pmm₂) ∧ allocPhysPage pmm₂ = .ok (high, pmm₃) ∧ allocPhysPage pmm₃ = .ok (a, pmm₄) ∧
      paeKalloc fuel (s.withPaging { s.vmm.paging with pmm := pmm₄ }) 4096 0x3 a = .ok (r, s₁) ∧ r ≠ 0 ∧
      createVmm fuel s₁.vmm 0 0x10000 0xc0000000 r = .ok (v, x) ∧ mapPds x.paging low mid high = .ok p ∧
      t.vmm.paging = p ∧ (t.vmm.vmms v).pdLow = low ∧ (t.vmm.vmms v).pdMid = mid ∧ ∀ w, w ≠ v → t.vmm.vmms w = x.vmms w := by
  obtain ⟨⟨low, pmm₁⟩, h₁, h⟩ := bind_eq_ok.mp h
  obtain ⟨⟨mid, pmm₂⟩, h₂, h⟩ := bind_eq_ok.mp h
  obtain ⟨⟨high, pmm₃⟩, h₃, h⟩ := bind_eq_ok.mp h
  obtain ⟨⟨a', pmm₄⟩, h₄, h⟩ := bind_eq_ok.mp h
  obtain ⟨⟨r, s₁⟩, hk, h⟩ := bind_eq_ok.mp h
  dsimp only at h₁ h₂ h₃ h₄ hk h
  by_cases hr : r = 0
  · rw [if_pos hr] at h
    cases h
  rw [if_neg hr] at h
  obtain ⟨⟨v', x⟩, hc, h⟩ := bind_eq_ok.mp h
  obtain ⟨p, hp, h⟩ := bind_eq_ok.mp h
  simp only [pure_eq, Except.ok.injEq, Prod.mk.injEq] at h
  obtain ⟨rfl, rfl, rfl⟩ := h
  refine ⟨low, mid, high, pmm₁, pmm₂, pmm₃, pmm₄, r, s₁, x, p, h₁, h₂, h₃, h₄, hk, hr, hc, hp, rfl, ?_, ?_, fun w hw => ?_⟩
  · simp [Spaces.setVmm]
  · simp [Spaces.setVmm]
  · simp [Spaces.setVmm, Spaces.withPaging, hw]

lemma setCurrentVmm_loads {s : Spaces} {v : ℕ} (h : (s.vmm.vmms v).pdLow ≠ 0) : ∃ pdpt : ℕ → ℕ,
    pdpt 0 = ((s.vmm.vmms v).pdLow ||| 1) ∧ pdpt 1 = ((s.vmm.vmms v).pdMid ||| 1) ∧ pdpt 3 = s.vmm.paging.pdpt 3 ∧
      setCurrentVmm s v = ⟨{ s.vmm with paging := { s.vmm.paging with pdpt := pdpt } }, v⟩ := by
  refine ⟨Function.update (Function.update (Function.update s.vmm.paging.pdpt 0 ((s.vmm.vmms v).pdLow ||| 1)) 1
    ((s.vmm.vmms v).pdMid ||| 1)) 2 ((s.vmm.vmms v).pdHigh ||| 1), by simp, by simp, by simp, ?_⟩
  rw [setCurrentVmm]
  exact if_neg h

namespace AddressSpaces

inductive Op
  | alloc
  | other
  | create (v phys : ℕ)
  | switch (v : ℕ)
  | mmap (phys virt flags : ℕ)
  | unmap (virt : ℕ)
  | store (virt x : ℕ)

/-- `other` is whatever leaves the page tables and the directories of the VMMs alone, such as the work on the trees of free
ranges. A page is unmapped once, and the memory of pages that are handed out is written. -/
inductive Step : Processes → Op → Processes → Prop
  | alloc {s p pmm} : allocPhysPage s.paging.pmm = .ok (p, pmm) →
      Step s .alloc { s.withPaging { s.paging with pmm := pmm } with held := p :: s.held }
  | other {s : Processes} {t : Spaces} : t.vmm.paging = s.paging →
      (∀ v, directoriesOf (t.vmm.vmms v) = directoriesOf (s.vmm v)) → Step s .other { s with spaces := t }
  | create {s t fuel v phys} : recordPdptes fuel s.spaces = .ok (v, phys, t) → v ∉ s.made → pdpteOf v = 3 → pdIndexOf v ≠ 511 →
      Step s (.create v phys) ⟨t, v :: s.made, s.loaded, phys :: s.held⟩
  | switch {s v} : v ∈ s.made ∨ (s.vmm v).pdLow = 0 →
      Step s (.switch v) { s with spaces := setCurrentVmm s.spaces v, loaded := if v ∈ s.made then some v else s.loaded }
  | mmap {s part phys virt flags q} : partOf s.loaded virt = some part → virt < 2 ^ 32 → pdIndexOf virt ≠ 511 → flags < 4096 →
      paeMmap s.paging phys virt flags = .ok q → Step s (.mmap phys virt flags) (s.withPaging q)
  | unmap {s part virt e q} : partOf s.loaded virt = some part → virt < 2 ^ 32 → pdIndexOf virt ≠ 511 →
      s.paging.translation virt = some e → pageOf e ∈ s.held → paeUnmap s.paging virt = .ok q →
      Step s (.unmap virt) { s.withPaging q with held := s.held.erase (pageOf e) }
  | store {s virt x e q} : virt < 2 ^ 32 → s.paging.translation virt = some e → pageOf e ∈ s.held →
      s.paging.store64 virt x = .ok q → Step s (.store virt x) (s.withPaging q)

/-- The processes, the one that runs, and the entries that translate the pages of each part. -/
structure Views where
  made : List ℕ
  loaded : Option ℕ
  space : Part → ℕ → Option ℕ

def Views.set (x : Views) (part : Part) (page : ℕ) (e : Option ℕ) : Views :=
  { x with space := Function.update x.space part (Function.update (x.space part) page e) }

/-- What a page table entry translates to. -/
def present (e : ℕ) : Option ℕ := if Present e then some e else none

/-- What an operation is to do to the address spaces. -/
def Op.apply (x : Views) : Op → Views
  | .alloc => x
  | .other => x
  | .create v phys =>
    let x := (x.set .kernel (v / 2 ^ 12) (present (phys ||| 3))).set .kernel (TEMP_PAGE_VIRT / 2 ^ 12) none
    { x with made := v :: x.made
             space := Function.update (Function.update x.space (.low v) fun _ => none) (.mid v) fun _ => none }
  | .switch v => { x with loaded := if v ∈ x.made then some v else x.loaded }
  | .mmap phys virt flags =>
    match partOf x.loaded virt with
    | some part => x.set part (virt / 2 ^ 12) (present (phys ||| flags))
    | none => x
  | .unmap virt =>
    match partOf x.loaded virt with
    | some part => x.set part (virt / 2 ^ 12) none
    | none => x
  | .store _ _ => x

structure Holds (s : Processes) (x : Views) : Prop where
  made : x.made = s.made
  loaded : x.loaded = s.loaded
  shared : s.paging.Shared s.dir
  directories : ∀ v ∈ s.made, ∃ l ≤ 0xF00, ∃ m ≤ 0xF00, (s.vmm v).pdLow = 4096 * (256 + l) ∧ (s.vmm v).pdMid = 4096 * (256 + m)
  current : ∀ v, s.loaded = some v →
    v ∈ s.made ∧ s.dir (.low v) = s.paging.directory 0 ∧ s.dir (.mid v) = s.paging.directory 1
  entries : ∀ part virt, virt < 2 ^ 32 → pdpteOf virt = part.pdpte → pdIndexOf virt ≠ 511 →
    s.paging.entryIn s.dir part (pdIndexOf virt) (ptIndexOf virt) = x.space part (virt / 2 ^ 12)
  held : ∀ p ∈ s.held, ∃ g ≤ 0xF00, p = 4096 * (256 + g) ∧ s.paging.SetAside s.dir (256 + g)
  nodup : s.held.Nodup

variable {s t : Processes} {x : Views} {q : Paging} {pmm : Pmm} {part : Part} {virt phys flags e f v w p : ℕ} {held : List ℕ}

lemma partOf_cases {loaded : Option ℕ} (h : partOf loaded virt = some part) : pdpteOf virt = 3 ∧ part = .kernel ∨
    ∃ v, loaded = some v ∧ (pdpteOf virt = 0 ∧ part = .low v ∨ pdpteOf virt = 1 ∧ part = .mid v) := by
  rw [partOf] at h
  by_cases h₃ : pdpteOf virt = 3
  · rw [if_pos h₃] at h
    exact .inl ⟨h₃, (Option.some.inj h).symm⟩
  · rw [if_neg h₃] at h
    obtain ⟨v, hv, h⟩ := Option.bind_eq_some_iff.mp h
    refine .inr ⟨v, hv, ?_⟩
    split_ifs at h with h₀ h₁
    · exact .inl ⟨h₀, (Option.some.inj h).symm⟩
    · exact .inr ⟨h₁, (Option.some.inj h).symm⟩

lemma partOf_pdpte {loaded : Option ℕ} (h : partOf loaded virt = some part) : pdpteOf virt = part.pdpte := by
  rcases partOf_cases h with ⟨hi, rfl⟩ | ⟨v, -, ⟨hi, rfl⟩ | ⟨hi, rfl⟩⟩ <;> exact hi

lemma dir_congr {a b : Processes} (hp : b.paging.pdpt = a.paging.pdpt) (hm : b.made = a.made)
    (hv : ∀ v ∈ a.made, directoriesOf (b.vmm v) = directoriesOf (a.vmm v)) : b.dir = a.dir := by
  funext part
  cases part with
  | kernel => rw [Processes.dir, Processes.dir, Paging.directory, Paging.directory, hp]
  | low v =>
    rw [Processes.dir, Processes.dir, hm]
    split_ifs with h
    · exact congrArg (fun d => some (d.1 / 4096)) (hv v h)
    · rfl
  | mid v =>
    rw [Processes.dir, Processes.dir, hm]
    split_ifs with h
    · exact congrArg (fun d => some (d.2.1 / 4096)) (hv v h)
    · rfl

namespace Holds

variable (h : Holds s x)
include h

lemma dir_partOf (hp : partOf s.loaded virt = some part) : s.dir part = s.paging.directory (pdpteOf virt) := by
  rcases partOf_cases hp with ⟨hi, rfl⟩ | ⟨v, hv, ⟨hi, rfl⟩ | ⟨hi, rfl⟩⟩
  · rw [hi]
    rfl
  · rw [hi]
    exact (h.current v hv).2.1
  · rw [hi]
    exact (h.current v hv).2.2

/-- One entry of a part has changed. -/
lemma sets (hv : virt < 2 ^ 32) (hp : pdpteOf virt = part.pdpte)
    (hq : Paging.Sets s.paging s.dir part (pdIndexOf virt) (ptIndexOf virt) e q)
    (hheld : ∀ p ∈ held, ∃ g ≤ 0xF00, p = 4096 * (256 + g) ∧ q.SetAside s.dir (256 + g)) (hnodup : held.Nodup) :
    Holds { s.withPaging q with held := held } (x.set part (virt / 2 ^ 12) (present e)) := by
  have hdir : ({ s.withPaging q with held := held } : Processes).dir = s.dir := dir_congr hq.pdpt rfl fun _ _ => rfl
  have hd : ∀ i, q.directory i = s.paging.directory i := fun i => by
    rw [Paging.directory, Paging.directory, hq.pdpt]
  refine ⟨h.made, h.loaded, ?_, h.directories, fun v hv => ?_, fun part' virt' hv' hp' hj' => ?_, ?_, hnodup⟩
  · rw [hdir]
    exact hq.shared
  · rw [hdir]
    obtain ⟨hm, hlow, hmid⟩ := h.current v hv
    exact ⟨hm, hlow.trans (hd 0).symm, hmid.trans (hd 1).symm⟩
  · rw [hdir]
    change q.entryIn s.dir part' _ _ = Function.update x.space part _ part' _
    by_cases hpart : part' = part
    · subst hpart
      rw [Function.update_self]
      by_cases hpage : virt' / 2 ^ 12 = virt / 2 ^ 12
      · obtain ⟨-, hj₁, hk₁⟩ := (Paging.page_eq_iff hv hv').mp hpage
        rw [hpage, Function.update_self, hj₁, hk₁]
        exact hq.self
      · rw [Function.update_of_ne hpage, ← h.entries part' virt' hv' hp' hj']
        apply hq.others part' _ _ hj'
        rintro - hj₁ hk₁
        exact hpage ((Paging.page_eq_iff hv hv').mpr ⟨hp'.trans hp.symm, hj₁, hk₁⟩)
    · rw [Function.update_of_ne hpart, ← h.entries part' virt' hv' hp' hj']
      exact hq.others part' _ _ hj' fun hpp => absurd hpp hpart
  · rw [hdir]
    exact hheld

lemma alloc (ha : allocPhysPage s.paging.pmm = .ok (p, pmm)) :
    Holds { s.withPaging { s.paging with pmm := pmm } with held := p :: s.held } x := by
  obtain ⟨g, hg, rfl, hshared, hnew, hkeep⟩ := h.shared.alloc ha
  refine ⟨h.made, h.loaded, hshared, h.directories, h.current, h.entries, fun p hp => ?_,
    List.nodup_cons.mpr ⟨fun hp => ?_, h.nodup⟩⟩
  · rcases List.mem_cons.mp hp with rfl | hp
    · exact ⟨g, hg, rfl, hnew⟩
    · obtain ⟨g', hg', rfl, ha'⟩ := h.held p hp
      exact ⟨g', hg', rfl, (hkeep _ ha').2⟩
  · obtain ⟨g', -, hgg, ha'⟩ := h.held _ hp
    exact (hkeep _ ha').1 (by omega)

lemma other {t : Spaces} (ht : t.vmm.paging = s.paging)
    (hd : ∀ v ∈ s.made, directoriesOf (t.vmm.vmms v) = directoriesOf (s.vmm v)) : Holds { s with spaces := t } x := by
  have hdir : ({ s with spaces := t } : Processes).dir = s.dir := dir_congr (congrArg Paging.pdpt ht) rfl hd
  have hpaging : ({ s with spaces := t } : Processes).paging = s.paging := ht
  refine ⟨h.made, h.loaded, ?_, fun v hv => ?_, ?_, ?_, ?_, h.nodup⟩
  · rw [hdir, hpaging]
    exact h.shared
  · obtain ⟨l, hl, m, hm, hlow, hmid⟩ := h.directories v hv
    refine ⟨l, hl, m, hm, ?_, ?_⟩
    · exact (congrArg Prod.fst (hd v hv)).trans hlow
    · exact (congrArg (fun d => d.2.1) (hd v hv)).trans hmid
  · rw [hdir, hpaging]
    exact h.current
  · rw [hdir, hpaging]
    exact h.entries
  · rw [hdir, hpaging]
    exact h.held

lemma touch (hf : s.paging.SetAside s.dir f) (ht : Paging.Touches s.paging f q) : Holds (s.withPaging q) x := by
  obtain ⟨hshared, hentries, hkeep⟩ := h.shared.touch hf ht
  have hdir : (s.withPaging q).dir = s.dir := dir_congr ht.pdpt rfl fun _ _ => rfl
  have hd : (s.withPaging q).paging.directory = s.paging.directory := ht.directory
  refine ⟨h.made, h.loaded, ?_, h.directories, ?_, fun part' virt' hv' hp' hj' => ?_, fun p hp => ?_, h.nodup⟩
  · rw [hdir]
    exact hshared
  · rw [hdir, hd]
    exact h.current
  · rw [hdir, ← h.entries part' virt' hv' hp' hj']
    exact hentries part' _ _
  · obtain ⟨g, hg, rfl, ha⟩ := h.held p hp
    rw [hdir]
    exact ⟨g, hg, rfl, hkeep _ ha⟩

lemma mmap (hp : partOf s.loaded virt = some part) (hv : virt < 2 ^ 32) (hj : pdIndexOf virt ≠ 511) (hf : flags < 4096)
    (hm : paeMmap s.paging phys virt flags = .ok q) : Holds (s.withPaging q) (Op.apply x (.mmap phys virt flags)) := by
  obtain ⟨hsets, hkeep⟩ := h.shared.mmap (h.dir_partOf hp) hj hf hm
  rw [Op.apply, h.loaded, hp]
  refine h.sets hv (partOf_pdpte hp) hsets (fun p hp => ?_) h.nodup
  obtain ⟨g, hg, rfl, ha⟩ := h.held p hp
  exact ⟨g, hg, rfl, (hkeep _ ha).1⟩

lemma frame_of_held (hp : pageOf e ∈ s.held) : ∃ g ≤ 0xF00, pageOf e = 4096 * (256 + g) ∧ frameOf e = 256 + g ∧
    s.paging.SetAside s.dir (256 + g) := by
  obtain ⟨g, hg, hpage, ha⟩ := h.held _ hp
  refine ⟨g, hg, hpage, ?_, ha⟩
  rw [pageOf] at hpage
  rw [frameOf]
  omega

lemma unmap (hp : partOf s.loaded virt = some part) (hv : virt < 2 ^ 32) (hj : pdIndexOf virt ≠ 511)
    (he : s.paging.translation virt = some e) (hpage : pageOf e ∈ s.held) (hu : paeUnmap s.paging virt = .ok q) :
    Holds { s.withPaging q with held := s.held.erase (pageOf e) } (Op.apply x (.unmap virt)) := by
  obtain ⟨g, hg, hpe, -, ha⟩ := h.frame_of_held hpage
  have hdir := h.dir_partOf hp
  rw [Paging.translation_entryAt hv, ← Paging.entryIn_of_directory hdir] at he
  obtain ⟨f, ht, hf⟩ := Paging.exists_table_of_entryIn he
  have hphys : u32 (pageOf (s.paging.entries64 f (ptIndexOf virt))) = 4096 * (256 + g) := by
    rw [hf, hpe, u32_eq (by omega)]
  obtain ⟨hsets, hkeep⟩ := h.shared.unmap hdir hj ht hphys hg ha hu
  rw [Op.apply, h.loaded, hp]
  refine h.sets hv (partOf_pdpte hp) hsets (fun p hp => ?_) (h.nodup.erase _)
  obtain ⟨hne, hp⟩ := h.nodup.mem_erase_iff.mp hp
  obtain ⟨g', hg', rfl, ha'⟩ := h.held p hp
  exact ⟨g', hg', rfl, (hkeep _ (by omega) ha').1⟩

lemma store (hv : virt < 2 ^ 32) (he : s.paging.translation virt = some e) (hpage : pageOf e ∈ s.held) {y : ℕ}
    (hs : s.paging.store64 virt y = .ok q) : Holds (s.withPaging q) x := by
  obtain ⟨g, -, -, hframe, ha⟩ := h.frame_of_held hpage
  have hwalk : s.paging.walk64 virt = some (256 + g) := by
    rw [Paging.walk64_eq hv, he, Option.map_some, hframe]
  rw [Paging.store64, hwalk] at hs
  obtain rfl := Except.ok.inj hs
  exact h.touch ha ⟨rfl, fun f' hf' => Phys.write64_frame hf'⟩

lemma switch (hv : v ∈ s.made ∨ (s.vmm v).pdLow = 0) :
    Holds { s with spaces := setCurrentVmm s.spaces v, loaded := if v ∈ s.made then some v else s.loaded }
      (Op.apply x (.switch v)) := by
  by_cases hm : v ∈ s.made
  · obtain ⟨l, hl, m, hm', hlow, hmid⟩ := h.directories v hm
    obtain ⟨pdpt, h₀, h₁, h₃, hspaces⟩ := setCurrentVmm_loads (s := s.spaces) (v := v) (show (s.vmm v).pdLow ≠ 0 by omega)
    rw [if_pos hm, Op.apply, if_pos (h.made ▸ hm), hspaces]
    have hdir : (⟨⟨{ s.spaces.vmm with paging := { s.spaces.vmm.paging with pdpt := pdpt } }, v⟩, s.made, some v, s.held⟩ :
        Processes).dir = s.dir := by
      funext part
      cases part with
      | kernel => exact congrArg target h₃
      | low w => rfl
      | mid w => rfl
    refine ⟨h.made, rfl, ?_, h.directories, fun w hw => ?_, ?_, fun p hp => ?_, h.nodup⟩
    · rw [hdir]
      exact h.shared.withPdpt pdpt
    · obtain rfl := Option.some.inj hw
      rw [hdir, Processes.dir, Processes.dir, if_pos hm, if_pos hm, hlow, hmid, Nat.mul_div_cancel_left _ (by norm_num),
        Nat.mul_div_cancel_left _ (by norm_num)]
      refine ⟨hm, ?_, ?_⟩
      · change _ = target (pdpt 0)
        rw [h₀, show (s.spaces.vmm.vmms v).pdLow = 4096 * (256 + l) from hlow, Paging.target_or_one (by omega)]
      · change _ = target (pdpt 1)
        rw [h₁, show (s.spaces.vmm.vmms v).pdMid = 4096 * (256 + m) from hmid, Paging.target_or_one (by omega)]
    · rw [hdir]
      exact h.entries
    · obtain ⟨g, hg, rfl, ha⟩ := h.held p hp
      rw [hdir]
      exact ⟨g, hg, rfl, ha.withPdpt pdpt⟩
  · have hspaces : setCurrentVmm s.spaces v = { s.spaces with currentVmm := v } := by
      rw [setCurrentVmm]
      exact if_pos (hv.resolve_left hm)
    rw [if_neg hm, hspaces, Op.apply, if_neg (h.made ▸ hm)]
    exact h.other (t := { s.spaces with currentVmm := v }) rfl fun _ _ => rfl

lemma setAside_of_held {g : ℕ} (hg : 4096 * (256 + g) ∈ s.held) : g ≤ 0xF00 ∧ s.paging.SetAside s.dir (256 + g) := by
  obtain ⟨g', hg', hgg, ha⟩ := h.held _ hg
  obtain rfl : g = g' := by omega
  exact ⟨hg', ha⟩

/-- A VMM gets its directories. -/
lemma add {l m : ℕ} {t : Spaces} (hheld : s.held = phys :: 4096 * (256 + m) :: 4096 * (256 + l) :: held) (hv : v ∉ s.made)
    (ht : t.vmm.paging = s.paging) (hlow : (t.vmm.vmms v).pdLow = 4096 * (256 + l))
    (hmid : (t.vmm.vmms v).pdMid = 4096 * (256 + m)) (hd : ∀ w ∈ s.made, directoriesOf (t.vmm.vmms w) = directoriesOf (s.vmm w))
    (hlb : ∀ k < 511, s.paging.entries64 (256 + l) k = 0) (hls : s.paging.entries64 (256 + l) 511 = 4096 * (256 + l) ||| 1)
    (hmb : ∀ k < 511, s.paging.entries64 (256 + m) k = 0) (hms : s.paging.entries64 (256 + m) 511 = 4096 * (256 + m) ||| 1) :
    Holds ⟨t, v :: s.made, s.loaded, phys :: held⟩ { x with
      made := v :: x.made
      space := Function.update (Function.update x.space (.low v) fun _ => none) (.mid v) fun _ => none } := by
  set u : Processes := ⟨t, v :: s.made, s.loaded, phys :: held⟩ with hu
  have hperm : (4096 * (256 + m) :: 4096 * (256 + l) :: phys :: held).Perm s.held := by
    rw [hheld]
    exact ((List.Perm.swap phys (4096 * (256 + l)) held).cons _).trans (.swap phys _ _)
  obtain ⟨hmnew, hnodup⟩ := List.nodup_cons.mp (hperm.nodup_iff.mpr h.nodup)
  obtain ⟨hlnew, hnodup⟩ := List.nodup_cons.mp hnodup
  obtain ⟨hl, hal⟩ := h.setAside_of_held (hperm.subset (List.mem_cons_of_mem _ List.mem_cons_self))
  obtain ⟨hm, ham⟩ := h.setAside_of_held (hperm.subset List.mem_cons_self)
  have hml : 256 + m ≠ 256 + l := fun hml => hmnew (by rw [hml]; exact List.mem_cons_self)
  obtain ⟨hshared, hother, hnew, hkeep⟩ := h.shared.add (σ := .low v) hal hls (by omega) hlb
  obtain ⟨hshared', hother', hnew', hkeep'⟩ := hshared.add (σ := .mid v) (hkeep (256 + m) hml ham) hms (by omega) hmb
  have hpaging : u.paging = s.paging := ht
  have hdir : u.dir = Function.update (Function.update s.dir (.low v) (some (256 + l))) (.mid v) (some (256 + m)) := by
    funext part
    cases part with
    | kernel =>
      rw [Function.update_of_ne (by simp), Function.update_of_ne (by simp), Processes.dir, hpaging]
      rfl
    | low w =>
      rw [Function.update_of_ne (by simp)]
      by_cases hw : w = v
      · subst hw
        rw [Function.update_self, Processes.dir, if_pos List.mem_cons_self, Processes.vmm, hlow,
          Nat.mul_div_cancel_left _ (by norm_num)]
      · rw [Function.update_of_ne (by simpa using hw), Processes.dir, Processes.dir]
        by_cases hm : w ∈ s.made
        · rw [if_pos (List.mem_cons_of_mem v hm), if_pos hm]
          exact congrArg (fun d => some (d.1 / 4096)) (hd w hm)
        · rw [if_neg (by simp [hu, hw, hm]), if_neg hm]
    | mid w =>
      by_cases hw : w = v
      · subst hw
        rw [Function.update_self, Processes.dir, if_pos List.mem_cons_self, Processes.vmm, hmid,
          Nat.mul_div_cancel_left _ (by norm_num)]
      · rw [Function.update_of_ne (by simpa using hw), Function.update_of_ne (by simp), Processes.dir, Processes.dir]
        by_cases hm : w ∈ s.made
        · rw [if_pos (List.mem_cons_of_mem v hm), if_pos hm]
          exact congrArg (fun d => some (d.2.1 / 4096)) (hd w hm)
        · rw [if_neg (by simp [hu, hw, hm]), if_neg hm]
  refine ⟨congrArg (v :: ·) h.made, h.loaded, ?_, fun w hw => ?_, fun w hw => ?_, fun part virt hv' hp hj => ?_,
    fun p hp => ?_, hnodup⟩
  · rw [hdir, hpaging]
    exact hshared'
  · by_cases hwv : w = v
    · subst hwv
      exact ⟨l, hl, m, hm, hlow, hmid⟩
    · have hw' := (List.mem_cons.mp hw).resolve_left hwv
      obtain ⟨l', hl', m', hm', hlow', hmid'⟩ := h.directories w hw'
      exact ⟨l', hl', m', hm', (congrArg Prod.fst (hd w hw')).trans hlow', (congrArg (fun d => d.2.1) (hd w hw')).trans hmid'⟩
  · obtain ⟨hw', hlow', hmid'⟩ := h.current w hw
    have hwv : w ≠ v := fun hwv => hv (hwv ▸ hw')
    rw [hdir, hpaging, Function.update_of_ne (by simp), Function.update_of_ne (by simpa using hwv),
      Function.update_of_ne (by simpa using hwv), Function.update_of_ne (by simp)]
    exact ⟨List.mem_cons_of_mem v hw', hlow', hmid'⟩
  · rw [hdir, hpaging]
    change _ = Function.update (Function.update x.space (.low v) fun _ => none) (.mid v) (fun _ => none) part _
    by_cases hmv : part = .mid v
    · subst hmv
      rw [Function.update_self, hnew' _ _ hj]
    · rw [Function.update_of_ne hmv, hother' part _ _ hmv]
      by_cases hlv : part = .low v
      · subst hlv
        rw [Function.update_self, hnew _ _ hj]
      · rw [Function.update_of_ne hlv, hother part _ _ hlv, h.entries part virt hv' hp hj]
  · obtain ⟨g, hg, rfl, ha⟩ := h.held p (hperm.subset (List.mem_cons_of_mem _ (List.mem_cons_of_mem _ hp)))
    rw [hdir, hpaging]
    refine ⟨g, hg, rfl, hkeep' _ (fun hgm => hmnew ?_) (hkeep _ (fun hgl => hlnew ?_) ha)⟩
    · rw [← hgm]
      exact List.mem_cons_of_mem _ hp
    · rw [← hgl]
      exact hp

/-- The directories of a new VMM are filled, and `temp_page` is unmapped. -/
lemma fill {l m k : ℕ} (hheld : s.held = phys :: 4096 * (256 + k) :: 4096 * (256 + m) :: 4096 * (256 + l) :: held)
    (hp : mapPds s.paging (4096 * (256 + l)) (4096 * (256 + m)) (4096 * (256 + k)) = .ok q) :
    Holds ⟨s.spaces.withPaging q, s.made, s.loaded, phys :: 4096 * (256 + m) :: 4096 * (256 + l) :: held⟩
        (x.set .kernel (TEMP_PAGE_VIRT / 2 ^ 12) none) ∧
      Paging.FillsAll s.paging (256 + l) (256 + m) (256 + k) q := by
  have hperm : (4096 * (256 + k) :: phys :: 4096 * (256 + m) :: 4096 * (256 + l) :: held).Perm s.held := by
    rw [hheld]
    exact .swap ..
  obtain ⟨hknew, hnodup⟩ := List.nodup_cons.mp (hperm.nodup_iff.mpr h.nodup)
  obtain ⟨hl, hla⟩ := h.setAside_of_held (g := l) (hperm.subset (by simp))
  obtain ⟨hm, hma⟩ := h.setAside_of_held (g := m) (hperm.subset (by simp))
  obtain ⟨hk, hka⟩ := h.setAside_of_held (g := k) (hperm.subset (by simp))
  have htemp : pdIndexOf TEMP_PAGE_VIRT = 504 ∧ ptIndexOf TEMP_PAGE_VIRT = 0 := by decide
  obtain ⟨hsets, hkeep⟩ := h.shared.mapPds (σ := .kernel) rfl hla hma hka hl hm hk hp
  have hentry : Paging.Sets s.paging s.dir .kernel (pdIndexOf TEMP_PAGE_VIRT) (ptIndexOf TEMP_PAGE_VIRT) 0 q := by
    rw [htemp.1, htemp.2]
    exact hsets
  have hparked : ∀ f, s.paging.SetAside s.dir f → (s.paging.only 3).Parked f := fun f hf => hf.parked (σ := .kernel) rfl
  have hheld' : ∀ p ∈ phys :: 4096 * (256 + m) :: 4096 * (256 + l) :: held,
      ∃ g ≤ 0xF00, p = 4096 * (256 + g) ∧ q.SetAside s.dir (256 + g) := fun p hp => by
    obtain ⟨g, hg, rfl, hga⟩ := h.held p (hperm.subset (List.mem_cons_of_mem _ hp))
    refine ⟨g, hg, rfl, hkeep _ (fun hgk => hknew ?_) hga⟩
    rwa [hgk] at hp
  have hz : Holds _ (x.set .kernel (TEMP_PAGE_VIRT / 2 ^ 12) (present 0)) := h.sets (by decide) (by decide) hentry hheld' hnodup
  rw [present, if_neg (by decide)] at hz
  refine ⟨hz, ?_⟩
  have hp3 : mapPds (s.paging.only 3) (4096 * (256 + l)) (4096 * (256 + m)) (4096 * (256 + k)) = .ok (q.only 3) := by
    rw [Paging.mapPds_only, hp]
    rfl
  have hne : 256 + l ≠ 256 + m ∧ 256 + l ≠ 256 + k ∧ 256 + m ≠ 256 + k := by
    simp only [List.nodup_cons, List.mem_cons, not_or] at hnodup hknew
    omega
  have hready : (s.paging.only 3).PaeReady := h.shared.only (σ := .kernel) rfl
  have hfills := Paging.mapPds_ok hready (hparked _ hla) (hparked _ hma) (hparked _ hka) hne.1 hne.2.1 hne.2.2 hp3
  exact ⟨hfills.low_blank, hfills.low_self, hfills.mid_blank, hfills.mid_self, hfills.high_stale, hfills.high_self⟩

lemma create {t : Spaces} {fuel : ℕ} (hr : recordPdptes fuel s.spaces = .ok (v, phys, t)) (hv : v ∉ s.made) (hi : pdpteOf v = 3)
    (hj : pdIndexOf v ≠ 511) : Holds ⟨t, v :: s.made, s.loaded, phys :: s.held⟩ (Op.apply x (.create v phys)) := by
  obtain ⟨low, mid, high, pmm₁, pmm₂, pmm₃, pmm₄, r, s₁, y, p, h₁, h₂, h₃, h₄, hk, hr0, hc, hp, htp, htl, htm, hto⟩ :=
    recordPdptes_parts hr
  have ha : Holds ⟨s.spaces.withPaging { s.paging with pmm := pmm₄ }, s.made, s.loaded, phys :: high :: mid :: low :: s.held⟩ x :=
    (((h.alloc h₁).alloc h₂).alloc h₃).alloc h₄
  have hphys : phys ≠ 0 ∧ phys % 4096 = 0 := by
    obtain ⟨g, -, rfl, -⟩ := ha.held phys List.mem_cons_self
    omega
  obtain ⟨base, u, q, htake, rfl, hq, rfl⟩ := paeKalloc_page hphys.1 hphys.2 hr0 hk
  obtain ⟨rfl, hcreate⟩ := createVmm_directories hr0 hc
  obtain ⟨hup, -⟩ := vmmTakeRange_frame (w := 0) htake
  -- the store page is mapped in the kernel's part
  have hb := ha.other (t := { s.spaces with vmm := u }) hup fun w _ => vmmTakeRange_directories htake
  have hpart : partOf s.loaded (u32 base) = some .kernel := if_pos hi
  have hm := hb.mmap hpart (Nat.mod_lt _ (by norm_num)) hj (by norm_num)
    (show paeMmap u.paging phys (u32 base) 0x3 = .ok q from hup ▸ hq)
  have hyp : y.paging = q := createVmm_paging hr0 hc
  have hn : Holds ⟨{ s.spaces with vmm := y }, s.made, s.loaded, phys :: high :: mid :: low :: s.held⟩
      (Op.apply x (.mmap phys (u32 base) 0x3)) :=
    hm.other (t := { s.spaces with vmm := y }) hyp fun w hw => hcreate w fun hwv => hv (hwv ▸ hw)
  obtain ⟨l, -, rfl, -⟩ := hn.held low (by simp)
  obtain ⟨m, -, rfl, -⟩ := hn.held mid (by simp)
  obtain ⟨k, -, rfl, -⟩ := hn.held high (by simp)
  obtain ⟨hz, hfills⟩ := hn.fill rfl hp
  have hx : Op.apply x (.mmap phys (u32 base) 0x3) = x.set .kernel (u32 base / 2 ^ 12) (present (phys ||| 0x3)) := by
    rw [Op.apply, partOf, if_pos hi]
  rw [hx] at hz
  refine hz.add (t := t) rfl hv htp htl htm (fun w hw => ?_) hfills.low_blank hfills.low_self hfills.mid_blank hfills.mid_self
  exact congrArg directoriesOf (hto w fun hwv => hv (hwv ▸ hw))

lemma step {op : Op} (hs : Step s op t) : Holds t (op.apply x) := by
  cases hs with
  | alloc ha => exact h.alloc ha
  | other ht hd => exact h.other ht fun v _ => hd v
  | create hr hv hi hj => exact h.create hr hv hi hj
  | switch hv => exact h.switch hv
  | mmap hp hv hj hf hm => exact h.mmap hp hv hj hf hm
  | unmap hp hv hj he hpage hu => exact h.unmap hp hv hj he hpage hu
  | store hv he hpage hs => exact h.store hv he hpage hs

/-- What the MMU finds in the parts of the process that runs, and in the kernel's. -/
lemma translation (hp : partOf s.loaded virt = some part) (hv : virt < 2 ^ 32) (hj : pdIndexOf virt ≠ 511) :
    s.paging.translation virt = x.space part (virt / 2 ^ 12) := by
  rw [Paging.translation_entryAt hv, ← Paging.entryIn_of_directory (h.dir_partOf hp), h.entries part virt hv (partOf_pdpte hp) hj]

end Holds

/-- Each process finds its own pages once it is switched to, and the pages handed out hold no page table of any process. -/
structure Separate (s : Processes) (x : Views) : Prop where
  made : x.made = s.made
  running : ∀ part virt, virt < 2 ^ 32 → pdIndexOf virt ≠ 511 → partOf s.loaded virt = some part →
    s.paging.translation virt = x.space part (virt / 2 ^ 12)
  switched : ∀ v ∈ s.made, ∀ part virt, virt < 2 ^ 32 → pdIndexOf virt ≠ 511 → partOf (some v) virt = some part →
    (setCurrentVmm s.spaces v).vmm.paging.translation virt = x.space part (virt / 2 ^ 12)
  held : ∀ p ∈ s.held, PageTables.Unused target s.paging.entries64 s.dir (p / 4096) ∧ s.paging.pmm.bit (physicalToFrame p) = true
  nodup : s.held.Nodup

lemma Holds.separate (h : Holds s x) : Separate s x := by
  refine ⟨h.made, fun part virt hv hj hp => h.translation hp hv hj, fun v hv part virt hv' hj hp => ?_, fun p hp => ?_, h.nodup⟩
  · have hs := h.switch (.inl hv)
    rw [if_pos hv] at hs
    refine (hs.translation hp hv' hj).trans ?_
    rfl
  · obtain ⟨g, hg, rfl, hu, hb⟩ := h.held p hp
    obtain ⟨k, hk, hb⟩ := hb
    obtain rfl : g = k := by omega
    rw [Nat.mul_div_cancel_left _ (by norm_num), physicalToFrame_page hg]
    exact ⟨hu, hb⟩

/-- An operation on behalf of another process. -/
lemma Holds.step_apart {y : Views} {op : Op} (h : Holds s y) (hv : v ∈ s.made) (hl : s.loaded ≠ some v) (hop : op ≠ .switch v)
    (hs : Step s op t) : v ∈ t.made ∧ t.loaded ≠ some v ∧
      ∀ part, part = .low v ∨ part = .mid v → (op.apply y).space part = y.space part := by
  have hpart : ∀ {virt part'}, partOf s.loaded virt = some part' → ∀ page e part, part = .low v ∨ part = .mid v →
      (y.set part' page e).space part = y.space part := by
    intro virt part' hp page e part hpv
    refine Function.update_of_ne ?_ _ _
    rcases partOf_cases hp with ⟨-, rfl⟩ | ⟨w, hw, hpw⟩
    · rcases hpv with rfl | rfl <;> simp
    · have hwv : v ≠ w := fun hwv => hl (hwv ▸ hw)
      rcases hpv with rfl | rfl <;> rcases hpw with ⟨-, rfl⟩ | ⟨-, rfl⟩ <;> simp [hwv]
  cases hs with
  | alloc => exact ⟨hv, hl, fun _ _ => rfl⟩
  | other => exact ⟨hv, hl, fun _ _ => rfl⟩
  | store => exact ⟨hv, hl, fun _ _ => rfl⟩
  | @create _ _ w _ _ hw =>
    refine ⟨List.mem_cons_of_mem _ hv, hl, fun part hpv => ?_⟩
    have hwv : v ≠ w := fun hwv => hw (hwv ▸ hv)
    rcases hpv with rfl | rfl <;> simp [Op.apply, Views.set, hwv]
  | @switch w hw =>
    refine ⟨hv, ?_, fun _ _ => rfl⟩
    have hwv : w ≠ v := fun hwv => hop (hwv ▸ rfl)
    split_ifs
    · simpa using hwv
    · exact hl
  | mmap hp =>
    rw [Op.apply, h.loaded, hp]
    exact ⟨hv, hl, hpart hp _ _⟩
  | unmap hp =>
    rw [Op.apply, h.loaded, hp]
    exact ⟨hv, hl, hpart hp _ _⟩

lemma Holds.run_apart {y : Views} {ops : List Op} (h : Holds s y) (hv : v ∈ s.made) (hl : s.loaded ≠ some v)
    (hr : Run Step s ops t) (hops : .switch v ∉ ops) : ∃ z, Holds t z ∧ v ∈ t.made ∧ t.loaded ≠ some v ∧
      ∀ part, part = .low v ∨ part = .mid v → z.space part = y.space part := by
  induction hr with
  | nil => exact ⟨y, h, hv, hl, fun _ _ => rfl⟩
  | @snoc t u ops op _ hs ih =>
    rw [List.mem_append, List.mem_singleton, not_or] at hops
    obtain ⟨z, hz, hv, hl, hsame⟩ := ih hops.1
    obtain ⟨hv', hl', hsame'⟩ := hz.step_apart hv hl (Ne.symm hops.2) hs
    exact ⟨op.apply z, hz.step hs, hv', hl', fun part hp => (hsame' part hp).trans (hsame part hp)⟩

lemma partOf_own (hvirt : virt < 2 ^ 31) : ∃ part, (part = .low v ∨ part = .mid v) ∧ partOf (some v) virt = some part := by
  have hi : pdpteOf virt = virt / 2 ^ 30 := by rw [pdpteOf, u32_eq (by omega)]
  rcases Nat.lt_or_ge virt (2 ^ 30) with hlt | hge
  · refine ⟨.low v, .inl rfl, ?_⟩
    rw [partOf, hi, if_neg (by omega), Option.bind_some, if_pos (by omega)]
  · refine ⟨.mid v, .inr rfl, ?_⟩
    rw [partOf, hi, if_neg (by omega), Option.bind_some, if_neg (by omega), if_pos (by omega)]

/-- The mappings that `v` finds once it is switched to. -/
def own (s : Processes) (v virt : ℕ) : Option ℕ := (setCurrentVmm s.spaces v).vmm.paging.translation virt

lemma Holds.own_loaded {y : Views} (h : Holds s y) (hl : s.loaded = some v) (hvirt : virt < 2 ^ 31) (hj : pdIndexOf virt ≠ 511) :
    s.paging.translation virt = own s v virt := by
  obtain ⟨part, -, hp⟩ := partOf_own (v := v) hvirt
  rw [own, h.separate.switched v (h.current v hl).1 part virt (by omega) hj hp]
  exact h.translation (hl ▸ hp) (by omega) hj

lemma Holds.own_eq {y z : Views} (h : Holds s y) (h' : Holds t z) (hv : v ∈ s.made) (hv' : v ∈ t.made)
    (hsame : ∀ part, part = .low v ∨ part = .mid v → z.space part = y.space part) (hvirt : virt < 2 ^ 31)
    (hj : pdIndexOf virt ≠ 511) : own t v virt = own s v virt := by
  obtain ⟨part, hpart, hp⟩ := partOf_own (v := v) hvirt
  rw [own, own, h'.separate.switched v hv' part virt (by omega) hj hp, h.separate.switched v hv part virt (by omega) hj hp,
    hsame part hpart]

lemma Holds.own_run {y : Views} {ops : List Op} (h : Holds s y) (hv : v ∈ s.made) (hl : s.loaded ≠ some v) (hr : Run Step s ops t)
    (hops : .switch v ∉ ops) (hvirt : virt < 2 ^ 31) (hj : pdIndexOf virt ≠ 511) : own t v virt = own s v virt := by
  obtain ⟨z, hz, hvt, -, hsame⟩ := h.run_apart hv hl hr hops
  exact h.own_eq hz hv hvt hsame hvirt hj

end AddressSpaces

end WordOS.Memory
