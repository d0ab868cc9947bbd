import WordOS.Memory.VmmCarve

/-! Runs of `vmm_page_alloc` on a VMM from its creation on. -/

namespace WordOS.Memory

open Machine BinaryTree Utils Lib.Zipper Lib.ColoredTree Lib.Runs

structure PageRequest where
  length : ℕ
  flags : ℕ
  phys : ℕ
  paeEnabled : Bool

def PageRequest.rounded (c : PageRequest) : ℕ := bytePgroundup (u32 c.length)

/-- A call on the VMM at `v` returns `r`. -/
inductive Allocates (v : ℕ) : VmmState → PageRequest × ℕ → VmmState → Prop
  | mk {s t fuel c r} : vmmPageAlloc fuel s v c.length c.flags c.phys c.paeEnabled = .ok (r, t) → Allocates v s (c, r) t

def total (calls : List (PageRequest × ℕ)) : ℕ := (calls.map fun c => c.1.rounded).sum

variable {s t : VmmState} {v base size fuel : ℕ} {c : PageRequest} {calls : List (PageRequest × ℕ)}

@[simp] lemma total_nil : total [] = 0 := rfl

@[simp] lemma total_append (calls calls' : List (PageRequest × ℕ)) : total (calls ++ calls') = total calls + total calls' := by
  simp [total]

@[simp] lemma total_singleton (c : PageRequest × ℕ) : total [c] = c.1.rounded := by
  simp [total]

lemma u32_add (a b : ℕ) : u32 (u32 a + b) = u32 (a + b) := by
  simp [u32]

lemma vmmMakeNode_single {id : ℕ} (hr : (s.vmms v).root = 0) (hs : Slots s.nodes (slotsOf s v) 0)
    (hm : vmmMakeNode fuel s v base size id = .ok t) :
    (∀ k, Single { t with kernelVmm := k } v 1 base size) ∧ t.kernelVmm = s.kernelVmm ∧ (t.vmms v).low = (s.vmms v).low := by
  obtain ⟨⟨p, u⟩, hu, ht⟩ := bind_eq_ok.mp hm
  obtain rfl := Except.ok.inj ht
  obtain ⟨u', hu', hrep, hs', -⟩ := makeNode_root (s := s.tree v) hr hs (by decide) (.inr (ne_fuel hu))
  obtain ⟨rfl, rfl⟩ := Prod.mk.injEq .. ▸ Except.ok.inj (hu.symm.trans hu')
  have hslots : ∀ k, slotsOf { s.setTree v u with kernelVmm := k } v = slotsOf s v := fun _ => VmmState.slotsOf_setTree ..
  refine ⟨fun k => ⟨by rw [hslots]; exact hs', one_pos, ?_, ?_⟩, rfl, by simp⟩
  · rw [hslots]
    simpa [newEntry] using hrep.root
  · rw [hslots]
    exact ⟨id, .black, hrep.rep.1, fun _ => rfl⟩

lemma storeVmm_single {rootPd low high : ℕ}
    (hm : vmmMakeNode fuel (storeVmm s rootPd low high v) v (bytePgroundup low) high 0 = .ok t) :
    (∀ k, Single { t with kernelVmm := k } v 1 (bytePgroundup low) high) ∧ (t.vmms v).low = bytePgroundup low := by
  have hv : (storeVmm s rootPd low high v).vmms v = ⟨rootPd, 0, 0, 0, 0, v + SIZEOF_VMM, bytePgroundup low, high⟩ :=
    Function.update_self ..
  have hslots : slotsOf (storeVmm s rootPd low high v) v = v + 96 := by
    rw [slotsOf, hv]
    rfl
  have hblank : Slots (storeVmm s rootPd low high v).nodes (slotsOf (storeVmm s rootPd low high v) v) 0 := by
    rw [hslots]
    refine ⟨by omega, by simp, fun i _ hi => ?_⟩
    rw [SLOTS] at hi
    change (if v ≤ v + 96 + 32 * i ∧ v + 96 + 32 * i < v + 4096 then blankNode else _) = blankNode
    exact if_pos (by omega)
  obtain ⟨h, -, hl⟩ := vmmMakeNode_single (by rw [hv]) hblank hm
  exact ⟨h, hl.trans (by rw [hv])⟩

lemma createVmm_single {rootPd low high storePage : ℕ} (hm : createVmm fuel s rootPd low high storePage = .ok (v, t)) :
    (∀ k, Single { t with kernelVmm := k } v 1 (bytePgroundup low) high) ∧ (t.vmms v).low = bytePgroundup low := by
  have hnew : ∀ (s : VmmState) (w : ℕ), ((storeVmm s rootPd low high w).vmms w).low = bytePgroundup low ∧
      ((storeVmm s rootPd low high w).vmms w).high = high := fun s w => by simp [storeVmm]
  by_cases h0 : storePage = 0
  · simp only [createVmm, if_pos h0] at hm
    obtain ⟨⟨phys, pmm⟩, -, hm⟩ := bind_eq_ok.mp hm
    obtain ⟨paging, -, hm⟩ := bind_eq_ok.mp hm
    simp only [pure_eq, ok_bind] at hm
    obtain ⟨u, hu, hm⟩ := bind_eq_ok.mp hm
    obtain ⟨rfl, rfl⟩ := Prod.mk.injEq .. ▸ Except.ok.inj hm
    rw [(hnew _ _).1, (hnew _ _).2] at hu
    exact storeVmm_single hu
  · simp only [createVmm, if_neg h0, pure_eq, ok_bind] at hm
    obtain ⟨u, hu, hm⟩ := bind_eq_ok.mp hm
    obtain ⟨rfl, rfl⟩ := Prod.mk.injEq .. ▸ Except.ok.inj hm
    rw [(hnew _ _).1, (hnew _ _).2] at hu
    exact storeVmm_single hu

lemma run_single (hs : Single s v 1 base size) (hv : v = s.kernelVmm) (hb : base < 2 ^ 32) (hrun : Run (Allocates v) s calls t)
    (hfit : ∀ pre c r post, calls = pre ++ (c, r) :: post → c.rounded < size - total pre) (hlen : calls.length < SLOTS) :
    Single t v (calls.length + 1) (u32 (base + total calls)) (size - total calls) ∧ v = t.kernelVmm ∧
      ∀ pre c r post, calls = pre ++ (c, r) :: post → r = u32 (u32 (base + total pre) + c.phys % 4096) := by
  induction hrun with
  | nil => exact ⟨by simpa [u32_eq hb] using hs, hv, by simp⟩
  | @snoc t u calls a hrun hstep ih =>
    rw [List.length_append, List.length_singleton] at hlen
    obtain ⟨ht, hk, hall⟩ := ih (fun pre c r post he => hfit pre c r (post ++ [a]) (by rw [he]; simp)) (by omega)
    obtain ⟨hstep⟩ := hstep
    rename_i c r
    have hc : c.rounded < size - total calls := hfit calls c r [] rfl
    rcases ht.pageAlloc (fun _ => hlen) hstep with ⟨hlt, _⟩ | ⟨hlt, hr, hu, hku, -⟩
    · exact absurd hlt (Nat.lt_asymm hc)
    · rw [show bytePgroundup (u32 c.length) = c.rounded from rfl, u32_add, Nat.sub_sub, Nat.add_assoc base] at hu
      refine ⟨?_, hk.trans hku.symm, fun pre c' r' post he => ?_⟩
      · rw [List.length_append, List.length_singleton, total_append, total_singleton]
        exact hu
      rcases List.eq_nil_or_concat post with rfl | ⟨post, b, rfl⟩
      · obtain ⟨rfl, hcr⟩ := List.append_inj' he rfl
        cases hcr
        exact hr
      · rw [List.concat_eq_append, ← List.cons_append, ← List.append_assoc] at he
        exact hall pre c' r' post (List.append_inj' he rfl).1

/-- Runs on the kernel's VMM carve the first range from its start on. -/
theorem run_carves {id : ℕ} (hr : (s.vmms s.kernelVmm).root = 0) (hs : Slots s.nodes (slotsOf s s.kernelVmm) 0)
    (hb : base < 2 ^ 32) (hm : vmmMakeNode fuel s s.kernelVmm base size id = .ok t) {u : VmmState}
    (hrun : Run (Allocates s.kernelVmm) t calls u)
    (hfit : ∀ pre c r post, calls = pre ++ (c, r) :: post → c.rounded < size - total pre) (hlen : calls.length ≤ 124) :
    (∃ id, Represents u.nodes (u.tree s.kernelVmm)
      (node ⟨.black, ⟨slotsOf u s.kernelVmm, id, u32 (base + total calls), size - total calls, 3⟩⟩ nil nil)) ∧
    (∀ pre c r post, calls = pre ++ (c, r) :: post → r = u32 (u32 (base + total pre) + c.phys % 4096)) ∧
    (calls.length < 124 → ∀ length < size - total calls, ∃ fuel w,
      vmmTakeRange fuel u s.kernelVmm length = .ok (some (u32 (base + total calls)), w)) := by
  obtain ⟨ht, hk, -⟩ := vmmMakeNode_single hr hs hm
  obtain ⟨hu, hku, hall⟩ := run_single (ht t.kernelVmm) hk.symm hb hrun hfit (by rw [SLOTS]; omega)
  refine ⟨?_, hall, fun hlt length hl => ?_⟩
  · obtain ⟨i, color, hc, h⟩ := hu.represents
    obtain rfl := hc hku
    exact ⟨i, h⟩
  · obtain ⟨w, hw, -⟩ := hu.takeRange hl (by rw [SLOTS]; omega) (.inl (Nat.lt_succ_self _))
    exact ⟨_, w, hw⟩

/-- A page directory in frame 1 with one table, for the addresses from 0xCC000000 on. -/
def oneTable : Paging where
  phys := fun f i => if f = 1 then if i = 1023 then 0x1003 else if i = 816 then 0x2003 else 0 else 0
  pmm := ⟨fun _ => 0, NUM_FRAMES⟩
  cr3 := 1
  pdpt := fun _ => 0
  maxBitExtension := 36

/-- A kernel whose VMM at 0x1000 has no range yet. -/
def emptyVmm : VmmState where
  nodes := fun _ => blankNode
  vmms := fun _ => ⟨1, 0, 0, 0, 0, 0x1030, 0xCC000000, 0xFFE00000⟩
  kernelVmm := 0x1000
  paging := oneTable

theorem run_carves_one : ∃ t u, vmmMakeNode 3 emptyVmm 0x1000 0xCC000000 0x10000 0 = .ok t ∧
    Run (Allocates 0x1000) t [(⟨5000, 3, 0, false⟩, 0xCC000000)] u ∧
    ∃ id, Represents u.nodes (u.tree 0x1000)
      (node ⟨.black, ⟨slotsOf u 0x1000, id, 0xCC002000, 0xE000, 3⟩⟩ nil nil) := by
  obtain ⟨⟨t, r, u⟩, h, hr⟩ := exists_of_toOption_map
    (x := vmmMakeNode 3 emptyVmm 0x1000 0xCC000000 0x10000 0 >>= fun t =>
      vmmPageAlloc 3 t 0x1000 5000 3 0 false >>= fun p => .ok (t, p.1, p.2))
    (g := fun p => p.2.1) (c := 0xCC000000) (by decide)
  obtain ⟨t', ht, h⟩ := bind_eq_ok.mp h
  obtain ⟨⟨r', u'⟩, hu, h⟩ := bind_eq_ok.mp h
  simp only [Except.ok.injEq, Prod.mk.injEq] at h
  obtain ⟨rfl, rfl, rfl⟩ := h
  obtain rfl : r' = 0xCC000000 := hr
  have hrun : Run (Allocates 0x1000) t' [(⟨5000, 3, 0, false⟩, 0xCC000000)] u' := .single ⟨hu⟩
  refine ⟨t', u', ht, hrun, (run_carves (s := emptyVmm) rfl ⟨by decide, by simp, fun _ _ _ => rfl⟩ (by decide) ht hrun
    (fun pre c r post he => ?_) (by decide)).1⟩
  rcases List.cons_eq_append_iff.mp he with ⟨rfl, he⟩ | ⟨pre', -, he⟩
  · obtain ⟨hcr, -⟩ := List.cons.inj he
    obtain ⟨rfl, -⟩ := Prod.mk.inj hcr
    decide
  · simp at he

end WordOS.Memory
