import WordOS.Memory.PdTranslation
import WordOS.Memory.VmmOwnership
import WordOS.Memory.VmmTakeFrame

/-! The check of `vmm_page_free` for a page that is there. -/

namespace WordOS.Memory

open Machine BinaryTree Utils Lib.Zipper Lib.ColoredTree

namespace Paging

/-- Where `vmm_page_free` looks for the entry of `addr`: the physical address of the table, less its flags, as a virtual
one, and `(addr >> 12) & ~0x3FF` as the index. -/
def checkedAddr (p : Paging) (addr : ℕ) : ℕ :=
  let pde := p.phys p.cr3 (pdOf addr)
  u32 (pde - pde % 2 ^ 10 + 4 * (pdOf addr * 2 ^ 10))

/-- The word that is read there instead, where a page is mapped. -/
def checkedWord (p : Paging) (addr : ℕ) : Option ℕ :=
  (p.walk32 (p.checkedAddr addr)).map fun f => p.phys f (p.checkedAddr addr % 2 ^ 12 / 4)

def HasAddr (p : Paging) (addr : ℕ) : Prop := p.phys p.cr3 (pdOf addr) - p.phys p.cr3 (pdOf addr) % 2 ^ 10 ≠ 0

end Paging

variable {s t u : VmmState} {v k fuel addr : ℕ} {tr : RbTree}

lemma presentCheck_noAddr (hroot : (s.vmms v).rootPd = s.paging.cr3) (h : ¬ s.paging.HasAddr addr) :
    presentCheck s v addr = .ok false := by
  rw [Paging.HasAddr, not_not, pdOf] at h
  rw [presentCheck, hroot]
  exact if_pos h

lemma presentCheck_eq (hroot : (s.vmms v).rootPd = s.paging.cr3) (h : s.paging.HasAddr addr) :
    presentCheck s v addr = match s.paging.checkedWord addr with
      | some w => .ok (decide (Present w))
      | none => .error .fault := by
  have hne : ¬ s.paging.phys s.paging.cr3 (u32 addr / 2 ^ 22) - s.paging.phys s.paging.cr3 (u32 addr / 2 ^ 22) % 2 ^ 10 = 0 := h
  rw [presentCheck, hroot]
  simp only [if_neg hne]
  change (s.paging.load32 (s.paging.checkedAddr addr) >>= fun page => pure (decide (Present page))) = _
  rw [Paging.load32, Paging.checkedWord]
  cases s.paging.walk32 (s.paging.checkedAddr addr) <;> rfl

lemma exists_insertFix {c : RbPath} {x : RbTree} (h : ∀ g, c.getLast? = some g → g.value.color = .black) :
    ∃ y, insertFix c x = some y := by
  fun_induction insertFix c x with
  | case1 x => exact ⟨_, rfl⟩
  | case2 g x hg => exact ⟨_, rfl⟩
  | case3 g x hg => exact absurd (h g rfl) hg
  | case4 => exact ⟨_, rfl⟩
  | case5 f g c x hf hs ih =>
    obtain ⟨y, hy⟩ := ih fun g' hg' => h g' (by
      cases c with
      | nil => cases hg'
      | cons a c => rw [List.getLast?_cons_cons, List.getLast?_cons_cons]; exact hg')
    exact ⟨_, by rw [hy]; rfl⟩
  | case6 => exact ⟨_, rfl⟩

lemma getLast_descend {c : RbPath} {x : RbTree} (hc : c ≠ []) (n : ℕ) : (descend n c x).getLast? = c.getLast? := by
  induction x generalizing c with
  | nil => rfl
  | node a l r ihl ihr =>
    rw [descend]
    split
    · rw [ihr (List.cons_ne_nil _ _), List.getLast?_cons_of_ne_nil hc]
    · rw [ihl (List.cons_ne_nil _ _), List.getLast?_cons_of_ne_nil hc]

lemma Holds.makeNode_returns (h : Holds s v k tr) (hk : k < SLOTS) (hf : (ptrs tr).length + k < fuel) (base size id : ℕ) :
    ∃ u, Memory.vmmMakeNode fuel s v base size id = .ok u := by
  cases tr with
  | nil =>
    have hfuel : k < fuel ∨ makeNode fuel (s.tree v) (slotsOf s v) base size id ≠ .error .fuel :=
      .inl (lt_of_le_of_lt (Nat.le_add_left _ _) hf)
    obtain ⟨s', hs', -⟩ := makeNode_root h.tree.root h.slots hk hfuel
    exact ⟨_, by rw [Memory.vmmMakeNode, hs']; rfl⟩
  | node a l r =>
    have hfuel : (ptrs (node a l r)).length + k < fuel ∨ Memory.vmmMakeNode fuel s v base size id ≠ .error .fuel := .inl hf
    have hn := h.vmmMakeNode (by simp) hk hfuel
    have hpath : ∀ g, (descend size [] (paint .black (node a l r))).getLast? = some g → g.value.color = .black := by
      intro g hg
      rw [paint, descend] at hg
      split at hg
      · rw [getLast_descend (by simp)] at hg
        obtain rfl := Option.some.inj hg
        rfl
      · rw [getLast_descend (by simp)] at hg
        obtain rfl := Option.some.inj hg
        rfl
    obtain ⟨y, hy⟩ := exists_insertFix (x := node ⟨.red, newEntry (slotsOf s v) k base size id⟩ nil nil) hpath
    rw [hy] at hn
    obtain ⟨s', hs', -⟩ := hn
    exact ⟨_, hs'⟩

/-- What a call of `vmm_page_free` is to do: a page that is there goes back to the free tree, and nothing happens to another. -/
structure FreesPresent (fuel : ℕ) (s : VmmState) (v k : ℕ) (tr : RbTree) (addr : ℕ) : Prop where
  present : (s.paging.walk32 addr).isSome → ∃ t tr', vmmPageFree fuel s v addr = .ok t ∧ t.paging.walk32 addr = none ∧
    Holds t v (k + 1) tr' ∧ (ranges tr').Perm ((addr, 4096) :: ranges tr)
  absent : s.paging.walk32 addr = none → vmmPageFree fuel s v addr = .ok s

lemma vmmPageFree_false (hc : presentCheck s v addr = .ok false) : vmmPageFree fuel s v addr = .ok s := by
  rw [vmmPageFree, hc]
  rfl

lemma vmmPageFree_true (h : Holds s v k tr) (hk : k < SLOTS) (hf : (ptrs tr).length + k < fuel) (hlt : addr < 2 ^ 32)
    (hc : presentCheck s v addr = .ok true) :
    ∃ u tr', Holds u v (k + 1) tr' ∧ (ranges tr').Perm ((addr, 4096) :: ranges tr) ∧ u.paging = s.paging ∧
      vmmPageFree fuel s v addr = (memoryUnmap s.paging (s.vmms v).rootPd addr >>= fun p => .ok { u with paging := p }) := by
  obtain ⟨u, hu⟩ := h.makeNode_returns hk hf (u32 addr) 4096 0
  obtain ⟨hpaging, -, hroot⟩ := vmmMakeNode_frame (w := v) hu
  obtain ⟨tr', h', hv, -⟩ := h.vmmMakeNode_ok hk hu
  refine ⟨u, tr', h', ?_, hpaging, ?_⟩
  · have hranges := hv.map Entry.range
    rwa [List.map_cons, newEntry, Entry.range, u32_eq hlt] at hranges
  · rw [vmmPageFree, hc, ok_bind, if_pos rfl, hu, ok_bind, hpaging, hroot]
    rfl

lemma vmmPageFree_ne_self (h : Holds s v k tr) (hk : k < SLOTS) (hf : (ptrs tr).length + k < fuel) (hlt : addr < 2 ^ 32)
    (hc : presentCheck s v addr = .ok true) : vmmPageFree fuel s v addr ≠ .ok s := by
  obtain ⟨u, tr', h', -, -, he⟩ := vmmPageFree_true h hk hf hlt hc
  intro hs
  rw [he] at hs
  obtain ⟨p, -, hp⟩ := bind_eq_ok.mp hs
  obtain rfl := Except.ok.inj hp
  have hsame : k + 1 = k := h.slots.unique h'.slots hk
  omega

lemma vmmPageFree_unmaps (h : Holds s v k tr) (hk : k < SLOTS) (hf : (ptrs tr).length + k < fuel) (hlt : addr < 2 ^ 32)
    (ha : addr % 4096 = 0) (hroot : (s.vmms v).rootPd = s.paging.cr3) (hself : s.paging.table32 1023 = some s.paging.cr3)
    (hwin : s.paging.table32 (pdOf addr) ≠ some s.paging.cr3) (hsized : 4 ≤ s.paging.pmm.numFrames)
    (hpage : (s.paging.walk32 addr).isSome) (hc : presentCheck s v addr = .ok true) :
    ∃ t tr', vmmPageFree fuel s v addr = .ok t ∧ t.paging.walk32 addr = none ∧ Holds t v (k + 1) tr' ∧
      (ranges tr').Perm ((addr, 4096) :: ranges tr) := by
  obtain ⟨u, tr', h', hranges, -, he⟩ := vmmPageFree_true h hk hf hlt hc
  rw [Paging.walk32_bind hlt] at hpage
  obtain ⟨f, ht⟩ : ∃ f, s.paging.table32 (pdOf addr) = some f := by
    cases ht : s.paging.table32 (pdOf addr) with
    | none =>
      rw [ht] at hpage
      cases hpage
    | some f => exact ⟨f, rfl⟩
  have hne : f ≠ s.paging.cr3 := fun hf => hwin (by rw [ht, hf])
  obtain ⟨pmm, hpmm, -⟩ := clearFrame_total hsized (physicalToFrame (pageOf (s.paging.phys f (ptOf addr))))
  have hun := Paging.memoryUnmap_self hself ht (by rw [u32_eq hlt]; omega) hpmm
  rw [hroot, hun] at he
  refine ⟨_, tr', he, ?_, ⟨h'.tree, h'.taken, h'.slots⟩, hranges⟩
  have htab := Paging.table32_setWord (s := { s.paging with pmm := pmm }) (k := ptOf addr) (x := 0) hne (pdOf addr)
  change Paging.walk32 ({ s.paging with pmm := pmm }.setWord f (ptOf addr) 0) addr = none
  rw [Paging.walk32_bind hlt, htab, show ({ s.paging with pmm := pmm } : Paging).table32 (pdOf addr) = some f from ht,
    Option.bind_some, Paging.phys_setWord_self]
  rfl

/-- `vmm_page_free` goes by the entry of the page exactly where the word it reads instead has the same present bit. -/
theorem vmmPageFree_frees_iff (h : Holds s v k tr) (hk : k < SLOTS) (hf : (ptrs tr).length + k < fuel) (hlt : addr < 2 ^ 32)
    (ha : addr % 4096 = 0) (hroot : (s.vmms v).rootPd = s.paging.cr3) (hself : s.paging.table32 1023 = some s.paging.cr3)
    (hwin : s.paging.table32 (pdOf addr) ≠ some s.paging.cr3) (hsized : 4 ≤ s.paging.pmm.numFrames) :
    FreesPresent fuel s v k tr addr ↔
      ((s.paging.walk32 addr).isSome → s.paging.HasAddr addr ∧ ∃ w, s.paging.checkedWord addr = some w ∧ Present w) ∧
      (s.paging.walk32 addr = none → s.paging.HasAddr addr → ∃ w, s.paging.checkedWord addr = some w ∧ ¬ Present w) := by
  have hcheck : ∀ {w}, s.paging.HasAddr addr → s.paging.checkedWord addr = some w →
      presentCheck s v addr = .ok (decide (Present w)) := by
    intro w haddr hw
    rw [presentCheck_eq hroot haddr, hw]
  have hfault : s.paging.HasAddr addr → s.paging.checkedWord addr = none → vmmPageFree fuel s v addr = .error .fault := by
    intro haddr hw
    rw [vmmPageFree, presentCheck_eq hroot haddr, hw]
    rfl
  constructor
  · intro hfrees
    refine ⟨fun hpage => ?_, fun hpage haddr => ?_⟩
    · obtain ⟨t, tr', ht, hgone, -⟩ := hfrees.present hpage
      have hleft : presentCheck s v addr ≠ .ok false := by
        intro hc
        rw [vmmPageFree_false hc] at ht
        rw [Except.ok.inj ht, hgone] at hpage
        cases hpage
      by_cases haddr : s.paging.HasAddr addr
      · refine ⟨haddr, ?_⟩
        cases hw : s.paging.checkedWord addr with
        | none =>
          rw [hfault haddr hw] at ht
          cases ht
        | some w =>
          refine ⟨w, rfl, by_contra fun hp => hleft ?_⟩
          rw [hcheck haddr hw, decide_eq_false hp]
      · exact absurd (presentCheck_noAddr hroot haddr) hleft
    · have hsame := hfrees.absent hpage
      cases hw : s.paging.checkedWord addr with
      | none =>
        rw [hfault haddr hw] at hsame
        cases hsame
      | some w =>
        refine ⟨w, rfl, fun hp => vmmPageFree_ne_self h hk hf hlt ?_ hsame⟩
        rw [hcheck haddr hw, decide_eq_true hp]
  · rintro ⟨hpresent, habsent⟩
    refine ⟨fun hpage => ?_, fun hpage => ?_⟩
    · obtain ⟨haddr, w, hw, hp⟩ := hpresent hpage
      exact vmmPageFree_unmaps h hk hf hlt ha hroot hself hwin hsized hpage (by rw [hcheck haddr hw, decide_eq_true hp])
    · by_cases haddr : s.paging.HasAddr addr
      · obtain ⟨w, hw, hp⟩ := habsent hpage haddr
        exact vmmPageFree_false (by rw [hcheck haddr hw, decide_eq_false hp])
      · exact vmmPageFree_false (presentCheck_noAddr hroot haddr)

/-- `lowAndHigh` with a page at 0xCC000000. -/
def withPage : Paging :=
  { lowAndHigh with phys := fun f i => if f = 2 ∧ i = 0 then 0x7003 else lowAndHigh.phys f i }

lemma withPage_holds : Holds { freshKernel with paging := withPage } 0x1000 1 firstRange :=
  ⟨freshKernel_holds.tree, freshKernel_holds.taken, freshKernel_holds.slots⟩

theorem vmmPageFree_frees_iff_mapped : FreesPresent 4 { freshKernel with paging := withPage } 0x1000 1 firstRange 0xCC000000 := by
  refine (vmmPageFree_frees_iff withPage_holds (by decide) (by decide) (by norm_num) (by norm_num) rfl (by decide)
    (by decide) (by decide)).mpr ⟨fun _ => ⟨?_, 1, by decide, rfl⟩, fun hnone => ?_⟩
  · have h : ¬ withPage.phys withPage.cr3 (pdOf 0xCC000000) - withPage.phys withPage.cr3 (pdOf 0xCC000000) % 2 ^ 10 = 0 := by
      decide
    exact h
  · have hsome : withPage.walk32 0xCC000000 = some 7 := by decide
    exact absurd (hnone.symm.trans hsome) (Option.some_ne_none _).symm

/-- The page at 0xCC000000 is not there, but the word that is looked at is odd: the page goes into the free tree. -/
theorem vmmPageFree_frees_absent : freshKernel.paging.walk32 0xCC000000 = none ∧
    (∃ t tr', vmmPageFree 4 freshKernel 0x1000 0xCC000000 = .ok t ∧ Holds t 0x1000 2 tr' ∧
      (ranges tr').Perm ((0xCC000000, 4096) :: ranges firstRange)) ∧
    ¬ FreesPresent 4 freshKernel 0x1000 1 firstRange 0xCC000000 := by
  have hnone : freshKernel.paging.walk32 0xCC000000 = none := by decide
  obtain ⟨b, hb, rfl⟩ := exists_of_toOption_map (x := presentCheck freshKernel 0x1000 0xCC000000) (g := id) (c := true)
    (by decide)
  refine ⟨hnone, ?_, fun h => vmmPageFree_ne_self freshKernel_holds (by decide) (by decide) (by norm_num) hb (h.absent hnone)⟩
  obtain ⟨u, tr', hu, hranges, -, he⟩ := vmmPageFree_true freshKernel_holds (by decide) (show _ < 4 by decide) (by norm_num) hb
  have ht : freshKernel.paging.table32 (pdOf 0xCC000000) = some 2 := by decide
  obtain ⟨pmm, hpmm, -⟩ := clearFrame_total (s := freshKernel.paging.pmm) (by decide)
    (physicalToFrame (pageOf (freshKernel.paging.phys 2 (ptOf 0xCC000000))))
  rw [show (freshKernel.vmms 0x1000).rootPd = freshKernel.paging.cr3 from rfl,
    Paging.memoryUnmap_self (by decide) ht (by decide) hpmm] at he
  exact ⟨_, tr', he, ⟨hu.tree, hu.taken, hu.slots⟩, hranges⟩

end WordOS.Memory
