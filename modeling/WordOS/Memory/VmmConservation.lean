import WordOS.Memory.PdFrames
import WordOS.Memory.VmmOwnership
import WordOS.Memory.VmmTakeFrame

/-! Runs of `vmm_page_alloc` and `vmm_page_free` on the kernel's VMM: what becomes of pages and frames once all
allocations are freed. -/

namespace WordOS.Memory

open Machine BinaryTree Utils Lib.Runs Lib.Ranges

def freeAddrs (s : VmmState) : Set ℕ := {x | ∃ t, Represents s.nodes (s.tree s.kernelVmm) t ∧ x ∈ cover (ranges t)}

/-- The same pages are free and the same frames taken. -/
structure Conserved (s u : VmmState) : Prop where
  pages : freeAddrs u = freeAddrs s
  frames : ∀ f, u.paging.pmm.bit f = s.paging.pmm.bit f

/-- Pages are free or in use, and no frames are taken but those behind the pages in use. -/
structure Accounts (s : VmmState) (u : Owners) : Prop where
  pages : freeAddrs u.vmm ∪ cover u.live = freeAddrs s
  frames : ∀ f, u.vmm.paging.pmm.bit f = true ↔
    s.paging.pmm.bit f = true ∨ ∃ p ∈ u.live, u.vmm.paging.frameBehind p.1 = f

/-- A page is given away only where it is a single one, for which there are a table, a slot and a frame within the reach
of `clear_frame`. -/
def Frugal (s : Owners) : VmmCall → Prop
  | .alloc c _ => c.phys = 0 ∧ ∀ t k, Holds s.vmm s.vmm.kernelVmm k t → ∀ base ∈ chosen c.rounded t,
      c.rounded = 4096 ∧ c.flags < 4096 ∧ c.paeEnabled = false ∧ (∃ f ≤ NUM_FRAMES, s.vmm.paging.pmm.bit f = false) ∧
        (NeedsSlot 4096 t → k < SLOTS) ∧ TakesCleanly (slotsOf s.vmm s.vmm.kernelVmm) k 4096 t ∧
        TakesAlone (slotsOf s.vmm s.vmm.kernelVmm) k 4096 t ∧ base + 4096 ≤ RECURSIVE_ADDR ∧
        (s.vmm.paging.table32 (pdOf base)).isSome
  | .free _ _ => HasSlot s.vmm s.vmm.kernelVmm

def FrugalStep (s : Owners) (e : VmmCall) (t : Owners) : Prop := Serves s e t ∧ Frugal s e

structure Ready (s : VmmState) (k : ℕ) (t : RbTree) : Prop where
  holds : Holds s s.kernelVmm k t
  tidy : Tidy 4096 (ranges t)
  nonzero : ∀ p ∈ ranges t, p.1 ≠ 0
  recursive : s.paging.Recursive32
  rootPd : (s.vmms s.kernelVmm).rootPd = s.paging.cr3
  sized : s.paging.pmm.numFrames = NUM_FRAMES

/-- What holds between frugal calls. -/
structure Accounted (before : ℕ → Bool) (l : List Range) (u : Owners) (k : ℕ) (t : RbTree) : Prop where
  holds : Holds u.vmm u.vmm.kernelVmm k t
  tidy : Tidy 4096 (ranges t ++ u.live)
  nonzero : ∀ p ∈ ranges t, p.1 ≠ 0
  pages : cover (ranges t ++ u.live) = cover l
  size : ∀ p ∈ u.live, p.2 = 4096 ∧ p.1 ≠ 0
  backed : Backed before u.vmm.paging (u.live.map Prod.fst)
  rootPd : (u.vmm.vmms u.vmm.kernelVmm).rootPd = u.vmm.paging.cr3

variable {s u : VmmState} {v w k length fuel base size id r : ℕ} {t t' : RbTree} {e : Entry} {o : Option ℕ} {c : PageRequest}

lemma cover_leftOver {l : List Range} (hb : e.base + length < 2 ^ 32) (hl : length ≤ e.size) :
    cover ((e.base, length) :: (leftOver length e ++ l)) = cover (e.range :: l) := by
  rw [leftOver]
  split_ifs with hgt
  · rw [u32_eq hb]
    exact cover_cut hl
  · have hs : e.size = length := by omega
    rw [Entry.range, hs]
    rfl

lemma freeAddrs_eq (h : Represents s.nodes (s.tree s.kernelVmm) t) : freeAddrs s = cover (ranges t) := by
  ext x
  constructor
  · rintro ⟨t', h', hx⟩
    rwa [h'.unique h] at hx
  · exact fun hx => ⟨t, h, hx⟩

namespace Accounted

variable {before : ℕ → Bool} {l : List Range} {u u' : Owners} {tr : RbTree} {addr : ℕ}

lemma isPage_notMem (h : Accounted before l u k tr) {base : ℕ} (ht : Tidy 4096 ((base, 4096) :: u.live)) :
    base ∉ u.live.map Prod.fst := by
  intro hm
  obtain ⟨p, hp, rfl⟩ := List.mem_map.mp hm
  have hd : Disjoint (span (p.1, 4096)) (span p) := (List.pairwise_cons.mp ht.apart).1 p hp
  have hs := (h.size p hp).1
  have hx : p.1 ∈ span (p.1, 4096) := ⟨le_rfl, by dsimp only; omega⟩
  exact Set.disjoint_left.mp hd hx ⟨le_rfl, by omega⟩

lemma alloc (h : Accounted before l u k tr) (hc : Frugal u (.alloc c r)) {s : VmmState}
    (ha : Allocates u.vmm.kernelVmm u.vmm (c, r) s) :
    ∃ k' t', Accounted before l ⟨s, if r = 0 then u.live else (r, c.rounded) :: u.live⟩ k' t' := by
  obtain ⟨ha⟩ := ha
  obtain ⟨hphys, hc⟩ := hc
  have hc := hc tr k h.holds
  rw [vmmPageAlloc, hphys] at ha
  obtain ⟨⟨o, s'⟩, ho, ha⟩ := bind_eq_ok.mp ha
  change vmmTakeRange _ _ _ c.rounded = _ at ho
  cases hfit : fit c.rounded [] tr none with
  | none =>
    have hno := h.holds.takeRange_none hfit (.inr (ne_fuel ho))
    obtain ⟨rfl, rfl⟩ := Prod.mk.inj (Except.ok.inj (hno.symm.trans ho))
    obtain ⟨rfl, rfl⟩ := Prod.mk.inj (Except.ok.inj ha)
    exact ⟨k, tr, h⟩
  | some q =>
    obtain ⟨q, x⟩ := q
    obtain ⟨a, y, z, rfl, hmem, hle⟩ := fit_entry hfit
    obtain ⟨hlen, hflags, hpae, hfree, hslot, hclean, halone, hend, htable⟩ := hc a.val.base (by rw [chosen, hfit]; rfl)
    rw [show bytePgroundup (u32 c.length) = 4096 from hlen, hpae] at ha
    rw [hlen] at ho hfit hle
    obtain ⟨rfl, hk, k', t', h', -, hperm'⟩ := h.holds.takeRange_clean hfit hslot hclean ho
    obtain ⟨hpaging, -, hroot⟩ := vmmTakeRange_frame (w := u.vmm.kernelVmm) ho
    obtain ⟨f, hf⟩ := Option.isSome_iff_exists.mp htable
    obtain ⟨p, hp, ha⟩ := bind_eq_ok.mp ha
    obtain ⟨rfl, rfl⟩ := Prod.mk.inj (Except.ok.inj ha)
    rw [RECURSIVE_ADDR] at hend
    -- the range chosen, what is left of it, and the rest
    have hperm := List.perm_cons_erase (List.mem_map_of_mem (f := Entry.range) hmem)
    set rest := (ranges tr).erase a.val.range
    have hall : (ranges tr ++ u.live).Perm (a.val.range :: (rest ++ u.live)) := hperm.append_right _
    have hleft : (ranges t').Perm (leftOver 4096 a.val ++ rest) := by
      apply (List.perm_cons a.val.range).mp
      exact (hperm' halone).trans ((hperm.append_left _).trans List.perm_middle)
    have hnew : (ranges t' ++ (a.val.base, 4096) :: u.live).Perm ((a.val.base, 4096) :: (leftOver 4096 a.val ++ (rest ++ u.live))) := by
      rw [← List.append_assoc]
      exact List.perm_middle.trans ((hleft.append_right _).cons _)
    have hin : a.val.range ∈ ranges tr := List.mem_map_of_mem hmem
    have htidy := tidy_leftOver (h.tidy.perm hall) (show a.val.base + 4096 < 2 ^ 32 by omega) dvd_rfl hle
    have hne : a.val.base ≠ 0 := h.nonzero _ hin
    have hpage : IsPage a.val.base := ⟨Nat.mod_eq_zero_of_dvd (h.tidy.aligned _ (List.mem_append_left _ hin)).1, by
      rw [RECURSIVE_ADDR]
      omega⟩
    have hr : u32 (a.val.base + 0 % 4096) = a.val.base := u32_eq (by omega)
    have hfresh : a.val.base ∉ u.live.map Prod.fst := h.isPage_notMem (htidy.subperm (List.Sublist.subperm (by
      apply List.Sublist.cons_cons
      rw [← List.append_assoc]
      exact List.sublist_append_right ..)))
    rw [hroot, hpaging, h.rootPd] at hp
    obtain ⟨hbacked, hcr3⟩ := h.backed.map hpage hfresh hf hflags hfree hp
    rw [hr, if_neg hne, hlen]
    refine ⟨k', t', ⟨h'.tree, h'.taken, h'.slots⟩, htidy.perm hnew.symm, ?_, ?_, ?_, hbacked, ?_⟩
    · intro p hp
      rcases List.mem_append.mp (hleft.mem_iff.mp hp) with hp | hp
      · rw [leftOver] at hp
        split_ifs at hp
        · obtain rfl := List.mem_singleton.mp hp
          rw [u32_eq (by omega)]
          exact Nat.succ_ne_zero _
        · cases hp
      · exact h.nonzero p (List.mem_of_mem_erase hp)
    · rw [cover_perm hnew, cover_leftOver (by omega) hle, ← cover_perm hall, h.pages]
    · intro p hp
      rcases List.mem_cons.mp hp with rfl | hp
      · exact ⟨rfl, hne⟩
      · exact h.size p hp
    · change (s'.vmms s'.kernelVmm).rootPd = p.cr3
      rw [hcr3, ← h.rootPd, ← hroot, hk]

lemma free (h : Accounted before l u k tr) {length : ℕ} (hc : HasSlot u.vmm u.vmm.kernelVmm) (hm : (addr, length) ∈ u.live)
    {s : VmmState} (hf : vmmPageFree fuel u.vmm u.vmm.kernelVmm addr = .ok s)
    (hp : presentCheck u.vmm u.vmm.kernelVmm addr = .ok true) :
    ∃ k' t', Accounted before l ⟨s, u.live.erase (addr, length)⟩ k' t' := by
  rw [vmmPageFree, hp, ok_bind, if_pos rfl] at hf
  obtain ⟨s', hs', hf⟩ := bind_eq_ok.mp hf
  obtain ⟨p, hp, hf⟩ := bind_eq_ok.mp hf
  obtain rfl := Except.ok.inj hf
  obtain ⟨hpaging, -, hroot⟩ := vmmMakeNode_frame (w := u.vmm.kernelVmm) hs'
  obtain ⟨t', h', hv, hk⟩ := h.holds.vmmMakeNode_ok (h.holds.slots.lt_of_hasSlot hc) hs'
  obtain ⟨rfl, hne⟩ : length = 4096 ∧ addr ≠ 0 := h.size _ hm
  have hperm := List.perm_cons_erase hm
  have hbacked := h.backed.perm (hperm.map Prod.fst)
  obtain ⟨-, hend⟩ := (hbacked.page addr List.mem_cons_self).1
  rw [RECURSIVE_ADDR] at hend
  rw [hroot, hpaging, h.rootPd] at hp
  obtain ⟨hbacked, hcr3⟩ := hbacked.unmap hp
  have haddr : u32 addr = addr := u32_eq (by omega)
  have hranges : (ranges t').Perm ((addr, 4096) :: ranges tr) := by
    have := hv.map Entry.range
    rwa [haddr] at this
  have hall : (ranges t' ++ u.live.erase (addr, 4096)).Perm (ranges tr ++ u.live) := by
    apply (hranges.append_right _).trans
    exact List.perm_middle.symm.trans (hperm.symm.append_left _)
  rw [← hk] at h'
  refine ⟨k + 1, t', ⟨h'.tree, h'.taken, h'.slots⟩, h.tidy.perm hall.symm, ?_, ?_, ?_, hbacked, ?_⟩
  · intro p hp
    rcases List.mem_cons.mp (hranges.mem_iff.mp hp) with rfl | hp
    · exact hne
    · exact h.nonzero p hp
  · rw [cover_perm hall, h.pages]
  · exact fun p hp => h.size p (List.mem_of_mem_erase hp)
  · change (s'.vmms s'.kernelVmm).rootPd = p.cr3
    rw [hcr3, ← h.rootPd, ← hroot, hk]

lemma step (h : Accounted before l u k tr) {e : VmmCall} (hs : FrugalStep u e u') : ∃ k' t', Accounted before l u' k' t' := by
  obtain ⟨hs, hc⟩ := hs
  cases hs with
  | alloc ha => exact h.alloc hc ha
  | free hm hp hf => exact h.free hc hm hf hp

end Accounted

lemma Ready.accounted (h : Ready s k t) : Accounted s.paging.pmm.bit (ranges t) ⟨s, []⟩ k t := by
  refine ⟨h.holds, by simpa using h.tidy, h.nonzero, by simp, by simp, ⟨h.recursive, h.sized, by simp, by simp, by simp⟩, h.rootPd⟩

/-- Nothing leaks in a run of calls for single pages that have their tables. -/
theorem run_conserves (h : Ready s k t) {calls : List VmmCall} {u : Owners} (hrun : Run FrugalStep ⟨s, []⟩ calls u) :
    Accounts s u ∧ (u.live = [] → Conserved s u.vmm) := by
  obtain ⟨k', t', hu⟩ := hrun.invariant (I := fun u => ∃ k' t', Accounted s.paging.pmm.bit (ranges t) u k' t')
    (fun _ _ _ ⟨_, _, h⟩ hs => h.step hs) ⟨k, t, h.accounted⟩
  have hpages : freeAddrs u.vmm ∪ cover u.live = freeAddrs s := by
    rw [freeAddrs_eq hu.holds.tree, freeAddrs_eq h.holds.tree, ← cover_append, hu.pages]
  have hframes : ∀ f, u.vmm.paging.pmm.bit f = true ↔
      s.paging.pmm.bit f = true ∨ ∃ p ∈ u.live, u.vmm.paging.frameBehind p.1 = f := by
    intro f
    rw [hu.backed.frames]
    simp
  refine ⟨⟨hpages, hframes⟩, fun hl => ⟨?_, fun f => ?_⟩⟩
  · rw [hl] at hpages
    simpa [cover] using hpages
  · have := hframes f
    rw [hl] at this
    exact Bool.eq_iff_iff.mpr (by simpa using this)

lemma lowAndHigh_table {j f : ℕ} (h : lowAndHigh.table32 j = some f) : j = 0 ∧ f = 3 ∨ j = 816 ∧ f = 2 ∨ j = 1023 ∧ f = 1 := by
  rw [Paging.table32_eq (Paging.table32_lt h)] at h
  have he : lowAndHigh.phys 1 j = if j = 0 then 0x3003 else if j = 1023 then 0x1003 else if j = 816 then 0x2003 else 0 := by
    simp [lowAndHigh, oneTable]
  rw [show lowAndHigh.cr3 = 1 from rfl, he] at h
  by_cases h₀ : j = 0
  · rw [if_pos h₀] at h
    exact .inl ⟨h₀, (Option.some.inj h).symm⟩
  by_cases h₁ : j = 1023
  · rw [if_neg h₀, if_pos h₁] at h
    exact .inr (.inr ⟨h₁, (Option.some.inj h).symm⟩)
  by_cases h₂ : j = 816
  · rw [if_neg h₀, if_neg h₁, if_pos h₂] at h
    exact .inr (.inl ⟨h₂, (Option.some.inj h).symm⟩)
  · rw [if_neg h₀, if_neg h₁, if_neg h₂] at h
    cases h

lemma lowAndHigh_recursive : lowAndHigh.Recursive32 := by
  refine ⟨fun _ d hd => ?_, fun _ _ _ _ _ => rfl, fun _ j t _ hj ht hd => ?_, fun _ j _ j' t hj hj' ht ht' => ⟨rfl, ?_⟩⟩
  · obtain rfl := Option.some.inj hd
    decide
  · obtain rfl : 1 = t := Option.some.inj hd
    have := lowAndHigh_table ht
    omega
  · have := lowAndHigh_table ht
    have := lowAndHigh_table ht'
    omega

lemma freshKernel_ready : Ready freshKernel 1 firstRange :=
  ⟨freshKernel_holds, ⟨by decide, List.pairwise_singleton ..⟩, by decide, lowAndHigh_recursive, rfl, rfl⟩

theorem run_conserves_one : ∃ u, Run FrugalStep ⟨freshKernel, []⟩ [.alloc ⟨4096, 3, 0, false⟩ 0xCC000000, .free 0xCC000000 4096] u ∧
    Accounts freshKernel u ∧ (u.live = [] → Conserved freshKernel u.vmm) := by
  obtain ⟨⟨r, t, b, u⟩, h, hg⟩ := exists_of_toOption_map (x := allocAndFree ⟨4096, 3, 0, false⟩)
    (g := fun (r, t, b, _) => decide (r = 0xCC000000 ∧ t.kernelVmm = 0x1000 ∧ b = true ∧
      ¬ (t.nodes (slotsOf t 0x1000 + 32 * 2)).Taken)) (c := true) (by decide +kernel)
  obtain ⟨rfl, hk, rfl, hslot⟩ := of_decide_eq_true hg
  obtain ⟨ha, hf⟩ := allocAndFree_serves h (by decide) hk
  have hfrugal : Frugal ⟨freshKernel, []⟩ (.alloc ⟨4096, 3, 0, false⟩ 0xCC000000) := by
    refine ⟨rfl, fun t k ht base hb => ?_⟩
    obtain rfl := ht.tree.unique freshKernel_holds.tree
    obtain rfl := freshKernel_holds.slots.unique ht.slots (by decide)
    obtain rfl : 0xCC000000 = base := Option.some.inj hb
    exact ⟨rfl, by decide, rfl, ⟨0, by decide, by decide⟩, fun _ => by decide, by decide, fun _ hr => (hr rfl).elim, by decide, rfl⟩
  have hfrugal' : Frugal ⟨t, [(0xCC000000, 4096)]⟩ (.free 0xCC000000 4096) := by
    rw [Frugal, hk]
    exact ⟨2, by decide, hslot⟩
  have hrun : Run FrugalStep ⟨freshKernel, []⟩ [.alloc ⟨4096, 3, 0, false⟩ 0xCC000000, .free 0xCC000000 4096] ⟨u, []⟩ :=
    (Run.single ⟨ha, hfrugal⟩).snoc ⟨hf, hfrugal'⟩
  exact ⟨_, hrun, run_conserves freshKernel_ready hrun⟩

/-- Of two pages only the first comes back, with its frame. -/
theorem run_not_conserved : ∃ u, Run Serves ⟨freshKernel, []⟩
    [.alloc ⟨8192, 3, 0, false⟩ 0xCC000000, .free 0xCC000000 8192] ⟨u, []⟩ ∧ ¬ Conserved freshKernel u := by
  obtain ⟨⟨r, t, b, u⟩, h, hg⟩ := exists_of_toOption_map (x := allocAndFree ⟨8192, 3, 0, false⟩)
    (g := fun (r, t, b, u) => decide (r = 0xCC000000 ∧ t.kernelVmm = 0x1000 ∧ b = true ∧ u.paging.pmm.bit 1 = true))
    (c := true) (by decide +kernel)
  obtain ⟨rfl, hk, rfl, hbit⟩ := of_decide_eq_true hg
  obtain ⟨ha, hf⟩ := allocAndFree_serves h (by decide) hk
  refine ⟨u, (Run.single ha).snoc hf, fun hc => ?_⟩
  have := hc.frames 1
  rw [hbit] at this
  cases this

end WordOS.Memory
