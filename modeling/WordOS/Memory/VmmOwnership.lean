import WordOS.Lib.Ranges
import WordOS.Memory.VmmTakeClean

/-! Runs of `vmm_page_alloc` and `vmm_page_free` on the kernel's VMM: no page has two owners. -/

namespace WordOS.Memory

open Machine BinaryTree Utils Lib.Zipper Lib.ColoredTree Lib.Runs Lib.Ranges

/-- The kernel and the allocations that were not freed: the address returned and the rounded length of each. -/
structure Owners where
  vmm : VmmState
  live : List (ℕ × ℕ)

inductive VmmCall
  | alloc (c : PageRequest) (r : ℕ)
  | free (addr length : ℕ)

/-- A call on the kernel's VMM returns; `NULL` is no allocation. -/
inductive Serves : Owners → VmmCall → Owners → Prop
  | alloc {s c r t} : Allocates s.vmm.kernelVmm s.vmm (c, r) t →
      Serves s (.alloc c r) ⟨t, if r = 0 then s.live else (r, c.rounded) :: s.live⟩
  | free {s addr length fuel t} : (addr, length) ∈ s.live → presentCheck s.vmm s.vmm.kernelVmm addr = .ok true →
      vmmPageFree fuel s.vmm s.vmm.kernelVmm addr = .ok t →
      Serves s (.free addr length) ⟨t, s.live.erase (addr, length)⟩

def pages (live : List (ℕ × ℕ)) : List Range := live.map fun p => (pageOf p.1, p.2)

/-- Free ranges and allocations consist of pages, and share none. -/
def NoneShared (s : Owners) : Prop :=
  ∃ t, Represents s.vmm.nodes (s.vmm.tree s.vmm.kernelVmm) t ∧ Tidy 4096 (ranges t ++ pages s.live)

/-- What the calls do not check. -/
def Careful (s : Owners) : VmmCall → Prop
  | .alloc c _ => ∀ t k, Holds s.vmm s.vmm.kernelVmm k t →
      (NeedsSlot c.rounded t → k < SLOTS) ∧ TakesCleanly (slotsOf s.vmm s.vmm.kernelVmm) k c.rounded t ∧
        ∀ base ∈ chosen c.rounded t, base + c.rounded < 2 ^ 32
  | .free addr length => addr % 4096 = 0 ∧ length ≠ 0 ∧ HasSlot s.vmm s.vmm.kernelVmm

def CarefulStep (s : Owners) (e : VmmCall) (t : Owners) : Prop := Serves s e t ∧ Careful s e

/-- What holds between careful calls. -/
structure Owned (s : Owners) (k : ℕ) (t : RbTree) : Prop where
  holds : Holds s.vmm s.vmm.kernelVmm k t
  tidy : Tidy 4096 (ranges t ++ pages s.live)
  bound : ∀ p ∈ s.live, p.1 < 2 ^ 32

variable {s u : VmmState} {v k length fuel base size id r : ℕ} {t t' t₁ : RbTree} {e : Entry} {w : RbState} {c : PageRequest}

lemma tidy_leftOver {l : List Range} (h : Tidy 4096 (e.range :: l)) (hb : e.base + length < 2 ^ 32) (hn : 4096 ∣ length)
    (hl : length ≤ e.size) : Tidy 4096 ((e.base, length) :: (leftOver length e ++ l)) := by
  have hcut := h.cut hn hl
  rw [leftOver]
  split_ifs with hgt
  · rw [u32_eq hb]
    exact hcut
  · exact hcut.subperm (List.Sublist.subperm ((List.sublist_cons_self _ _).cons_cons _))

namespace Owned

variable {s t : Owners} {tr : RbTree}

lemma alloc (h : Owned s k tr) (hc : Careful s (.alloc c r)) {u : VmmState} (ha : Allocates s.vmm.kernelVmm s.vmm (c, r) u) :
    ∃ k' t', Owned ⟨u, if r = 0 then s.live else (r, c.rounded) :: s.live⟩ k' t' := by
  obtain ⟨ha⟩ := ha
  obtain ⟨hslot, hclean, hlt⟩ := hc tr k h.holds
  cases hfit : fit c.rounded [] tr none with
  | none =>
    have hno : ∀ fuel o, vmmTakeRange fuel s.vmm s.vmm.kernelVmm c.rounded = .ok o → o = (none, s.vmm) := fun fuel o ho =>
      Except.ok.inj (ho.symm.trans (h.holds.takeRange_none hfit (.inr (ne_fuel ho))))
    rcases vmmPageAlloc_cases ha with ⟨ho, rfl⟩ | ⟨base, s', p, ho, -, -⟩
    · obtain ⟨-, rfl⟩ := Prod.mk.inj (hno _ _ ho)
      exact ⟨k, tr, h⟩
    · cases hno _ _ ho
  | some q =>
    obtain ⟨p, q⟩ := q
    obtain ⟨a, l, x, rfl, hmem, hle⟩ := fit_entry hfit
    obtain ⟨o, s', q, ho, hr, rfl⟩ : ∃ o s' q, vmmTakeRange _ s.vmm s.vmm.kernelVmm c.rounded = .ok (o, s') ∧
        (∀ base, o = some base → r = u32 (base + c.phys % 4096)) ∧ u = { s' with paging := q } := by
      rcases vmmPageAlloc_cases ha with ⟨ho, -⟩ | ⟨base, s', q, ho, hr, hu⟩
      · exact ⟨none, u, u.paging, ho, fun _ hb => (by cases hb), rfl⟩
      · exact ⟨some base, s', q, ho, fun _ hb => by rw [hr, Option.some.inj hb], hu⟩
    obtain ⟨rfl, hk, k', t', h', hsub, -⟩ := h.holds.takeRange_clean hfit hslot hclean ho
    have hr := hr _ rfl
    -- the range chosen, what is left of it, and the rest
    have hperm := List.perm_cons_erase (List.mem_map_of_mem (f := Entry.range) hmem)
    set rest := (ranges tr).erase a.val.range with hrest
    have hall : (ranges tr ++ pages s.live).Perm (a.val.range :: (rest ++ pages s.live)) := hperm.append_right _
    have hleft : (ranges t').Subperm (leftOver c.rounded a.val ++ rest) := by
      apply (List.subperm_cons a.val.range).mp
      exact hsub.trans ((hperm.append_left _).trans List.perm_middle).subperm
    have hlt : a.val.base + c.rounded < 2 ^ 32 := hlt _ (by rw [chosen, hfit]; rfl)
    have htidy := tidy_leftOver (h.tidy.perm hall) hlt (Nat.dvd_of_mod_eq_zero c.rounded_aligned) hle
    have hbase : a.val.range ∈ ranges tr ++ pages s.live := List.mem_append_left _ (List.mem_map_of_mem hmem)
    have hpage : pageOf r = a.val.base := by
      rw [hr]
      exact pageOf_u32_add (Nat.mod_eq_zero_of_dvd (h.tidy.aligned _ hbase).1) (by omega)
    have hlive : (pages (if r = 0 then s.live else (r, c.rounded) :: s.live)).Sublist ((a.val.base, c.rounded) :: pages s.live) := by
      split_ifs
      · exact List.sublist_cons_self _ _
      · rw [pages, List.map_cons, hpage]
        exact List.Sublist.refl _
    refine ⟨k', t', ⟨h'.tree, h'.taken, h'.slots⟩, htidy.subperm ?_, ?_⟩
    · refine (hleft.append hlive.subperm).trans (List.Perm.subperm ?_)
      rw [← List.append_assoc]
      exact List.perm_middle
    · intro q hq
      dsimp only at hq
      split_ifs at hq
      · exact h.bound q hq
      · rcases List.mem_cons.mp hq with rfl | hq
        · rw [hr]
          exact Nat.mod_lt _ (by norm_num)
        · exact h.bound q hq

lemma free (h : Owned s k tr) {addr length : ℕ} (hc : Careful s (.free addr length)) (hm : (addr, length) ∈ s.live)
    {u : VmmState} (hf : vmmPageFree fuel s.vmm s.vmm.kernelVmm addr = .ok u)
    (hp : presentCheck s.vmm s.vmm.kernelVmm addr = .ok true) :
    ∃ k' t', Owned ⟨u, s.live.erase (addr, length)⟩ k' t' := by
  obtain ⟨haligned, hlen, hslot⟩ := hc
  rw [vmmPageFree, hp, ok_bind, if_pos rfl] at hf
  obtain ⟨s', hs', hf⟩ := bind_eq_ok.mp hf
  obtain ⟨p, -, hf⟩ := bind_eq_ok.mp hf
  obtain rfl := Except.ok.inj hf
  obtain ⟨t', h', hv, hk⟩ := h.holds.vmmMakeNode_ok (h.holds.slots.lt_of_hasSlot hslot) hs'
  have hpage : pageOf addr = addr := by
    rw [pageOf, haligned]
    rfl
  have hperm : (pages s.live).Perm ((addr, length) :: pages (s.live.erase (addr, length))) := by
    have := (List.perm_cons_erase hm).map fun p => (pageOf p.1, p.2)
    rwa [List.map_cons, hpage] at this
  have hall : (ranges tr ++ pages s.live).Perm ((addr, length) :: (ranges tr ++ pages (s.live.erase (addr, length)))) :=
    (hperm.append_left _).trans List.perm_middle
  have ht := h.tidy.perm hall
  have hlength : 4096 ≤ length := Nat.le_of_dvd (Nat.pos_of_ne_zero hlen) (ht.aligned _ List.mem_cons_self).2
  have haddr : u32 addr = addr := u32_eq (h.bound _ hm)
  have hranges : (ranges t').Perm ((addr, 4096) :: ranges tr) := by
    have := hv.map Entry.range
    rwa [haddr] at this
  have ht' : Tidy 4096 ((addr, 4096) :: (ranges tr ++ pages (s.live.erase (addr, length)))) :=
    ht.shrink ⟨(ht.aligned _ List.mem_cons_self).1, dvd_rfl⟩ (span_subset le_rfl (by omega))
  refine ⟨k + 1, t', ⟨?_, h'.taken, ?_⟩, ht'.subperm (hranges.append_right _).subperm, fun q hq => h.bound q (List.mem_of_mem_erase hq)⟩
  · rw [← hk] at h'
    exact h'.tree
  · rw [← hk] at h'
    exact h'.slots

lemma step (h : Owned s k tr) {e : VmmCall} (hs : CarefulStep s e t) : ∃ k' t', Owned t k' t' := by
  obtain ⟨hs, hc⟩ := hs
  cases hs with
  | alloc ha => exact h.alloc hc ha
  | free hm hp hf => exact h.free hc hm hf hp

end Owned

/-- From a valid free tree on, no page is ever free and in use, or in use twice. -/
theorem run_none_shared {s : VmmState} {k : ℕ} {t : RbTree} (h : Holds s s.kernelVmm k t) (ht : Tidy 4096 (ranges t))
    {calls : List VmmCall} {u : Owners} (hrun : Run CarefulStep ⟨s, []⟩ calls u) : NoneShared u := by
  have h₀ : Owned ⟨s, []⟩ k t := ⟨h, by simpa [pages] using ht, by simp⟩
  obtain ⟨k', t', hu⟩ := hrun.invariant (I := fun s => ∃ k t, Owned s k t) (fun _ _ _ ⟨_, _, h⟩ hs => h.step hs) ⟨k, t, h₀⟩
  exact ⟨t', hu.holds.tree, hu.tidy⟩

/-- The directory of `oneTable` with a table for the low addresses, whose pages all lie in frame 5. -/
def lowAndHigh : Paging :=
  { oneTable with phys := fun f i => if f = 1 ∧ i = 0 then 0x3003 else if f = 3 then 0x5003 else if f = 5 then 1 else oneTable.phys f i }

/-- The first range of the kernel's VMM, of `high` bytes. -/
def firstRange : RbTree := node ⟨.black, 0x1060, 0, 0xCC000000, 0xFFE00000, 3⟩ nil nil

def freshKernel : VmmState where
  nodes := lay (fun _ => blankNode) 0 firstRange
  vmms := fun _ => ⟨1, 0, 0, 0, 0x1060, 0x1030, 0xCC000000, 0xFFE00000⟩
  kernelVmm := 0x1000
  paging := lowAndHigh

lemma freshKernel_holds : Holds freshKernel 0x1000 1 firstRange := by
  have hr := represents_lay (fun _ => blankNode) (t := firstRange) (by decide) (by decide)
  have hs : slotsOf freshKernel 0x1000 = 0x1060 := rfl
  refine ⟨hr.outside rfl fun _ _ => rfl, by simp [AllTaken, firstRange], ?_⟩
  rw [hs]
  refine ⟨by decide, fun i hi => ?_, fun i hi hlt => ?_⟩
  · obtain rfl := Nat.lt_one_iff.mp hi
    decide
  · refine lay_outside ?_
    have : ∀ i < SLOTS, 1 ≤ i → 0x1060 + 32 * i ∉ ptrs firstRange := by decide
    exact this i hlt hi

def allocAndFree (c : PageRequest) : Exec (ℕ × VmmState × Bool × VmmState) := do
  let (r, t) ← vmmPageAlloc 4 freshKernel 0x1000 c.length c.flags c.phys c.paeEnabled
  let present ← presentCheck t 0x1000 r
  let u ← vmmPageFree 4 t 0x1000 r
  return (r, t, present, u)

lemma allocAndFree_serves {t : VmmState} (h : allocAndFree c = .ok (r, t, true, u)) (h0 : r ≠ 0) (hk : t.kernelVmm = 0x1000) :
    Serves ⟨freshKernel, []⟩ (.alloc c r) ⟨t, [(r, c.rounded)]⟩ ∧
      Serves ⟨t, [(r, c.rounded)]⟩ (.free r c.rounded) ⟨u, []⟩ := by
  obtain ⟨⟨r', t'⟩, ha, h⟩ := bind_eq_ok.mp h
  obtain ⟨b, hp, h⟩ := bind_eq_ok.mp h
  obtain ⟨u', hf, h⟩ := bind_eq_ok.mp h
  cases h
  constructor
  · have := Serves.alloc (s := ⟨freshKernel, []⟩) ⟨ha⟩
    rwa [if_neg h0] at this
  · have : Serves ⟨t, [(r, c.rounded)]⟩ (.free r c.rounded) ⟨u, [(r, c.rounded)].erase (r, c.rounded)⟩ :=
      .free (by simp) (by rw [hk]; exact hp) (by rw [hk]; exact hf)
    simpa using this

theorem run_none_shared_two : ∃ u, Run CarefulStep ⟨freshKernel, []⟩
    [.alloc ⟨5000, 3, 0, false⟩ 0xCC000000, .free 0xCC000000 8192] u ∧ NoneShared u := by
  obtain ⟨⟨r, t, b, u⟩, h, hg⟩ := exists_of_toOption_map (x := allocAndFree ⟨5000, 3, 0, false⟩)
    (g := fun (r, t, b, _) => decide (r = 0xCC000000 ∧ t.kernelVmm = 0x1000 ∧ b = true ∧
      ¬ (t.nodes (slotsOf t 0x1000 + 32 * 2)).Taken)) (c := true) (by decide +kernel)
  obtain ⟨rfl, hk, rfl, hslot⟩ := of_decide_eq_true hg
  obtain ⟨ha, hf⟩ := allocAndFree_serves h (by decide) hk
  have hcare : Careful ⟨freshKernel, []⟩ (.alloc ⟨5000, 3, 0, false⟩ 0xCC000000) := by
    intro t k ht
    obtain rfl := ht.tree.unique freshKernel_holds.tree
    obtain rfl := freshKernel_holds.slots.unique ht.slots (by decide)
    exact ⟨fun _ => by decide, by decide, by decide⟩
  have hcare' : Careful ⟨t, [(0xCC000000, 8192)]⟩ (.free 0xCC000000 8192) :=
    ⟨by decide, by decide, 2, by decide, by rw [hk]; exact hslot⟩
  have hrun : Run CarefulStep ⟨freshKernel, []⟩ [.alloc ⟨5000, 3, 0, false⟩ 0xCC000000, .free 0xCC000000 8192] ⟨u, []⟩ :=
    (Run.single ⟨ha, hcare⟩).snoc ⟨hf, hcare'⟩
  exact ⟨_, hrun, run_none_shared freshKernel_holds ⟨by decide, List.pairwise_singleton ..⟩ hrun⟩

/-- An address with the offset of the physical address goes into the free tree as it is. -/
theorem run_shared_offset : ∃ u, Run Serves ⟨freshKernel, []⟩
    [.alloc ⟨4096, 3, 0x5123, false⟩ 0xCC000123, .free 0xCC000123 4096] u ∧ ¬ NoneShared u := by
  obtain ⟨⟨r, t, b, u⟩, h, hg⟩ := exists_of_toOption_map (x := allocAndFree ⟨4096, 3, 0x5123, false⟩)
    (g := fun (r, t, b, u) => decide (r = 0xCC000123 ∧ t.kernelVmm = 0x1000 ∧ b = true ∧ u.kernelVmm = 0x1000 ∧
      (u.vmms 0x1000).root = 0x1060 ∧ (u.nodes 0x1060).left = 0x10A0 ∧ (u.nodes 0x10A0).base = 0xCC000123)) (c := true)
    (by decide +kernel)
  obtain ⟨rfl, hk, rfl, hku, hroot, hleft, hbase⟩ := of_decide_eq_true hg
  obtain ⟨ha, hf⟩ := allocAndFree_serves h (by decide) hk
  refine ⟨⟨u, []⟩, (Run.single ha).snoc hf, ?_⟩
  rintro ⟨tr, htr, htidy⟩
  dsimp only at htr
  rw [hku] at htr
  -- the node of the freed address is the left child of the root
  have hr : 0x1060 = addr tr := hroot.symm.trans htr.root
  have hrep : Rep u.nodes 0 tr := htr.rep
  rcases tr with _ | ⟨a, _ | ⟨b, x, y⟩, r⟩
  · cases hr
  · rw [hr, addr_node] at hleft
    rw [hrep.1] at hleft
    cases hleft
  · have hb : b.val.ptr = 0x10A0 := by
      rw [← hleft, hr, addr_node, hrep.1]
      rfl
    rw [← hb, hrep.2.1.1] at hbase
    have hmem : b.val.range ∈ ranges (node a (node b x y) r) ++ pages [] := by
      rw [ranges, vals_node, vals_node]
      simp
    have hbase : b.val.base = 0xCC000123 := hbase
    have := (htidy.aligned _ hmem).1
    rw [Entry.range, hbase] at this
    omega

end WordOS.Memory
