import WordOS.Memory.VmmTree

/-! The search and the deletion in `vmm_page_alloc` neither read nor write the page tables. -/

namespace WordOS.Memory

open Machine Utils

def VmmState.withPaging (s : VmmState) (p : Paging) : VmmState := { s with paging := p }

/-- The end of the search, once what is left of the range has a node of its own. -/
def dropRange (fuel : ℕ) (s : VmmState) (v : ℕ) (best : Ptr) : Exec (Option ℕ × VmmState) := do
  let base := (← (s.tree v).load best).base
  let t ← deleteNode fuel (s.tree s.kernelVmm) best
  return (some base, s.setTree s.kernelVmm t)

variable {s u : VmmState} {p : Paging} {v w length fuel base size id : ℕ} {best : Ptr} {o : Option ℕ}

lemma vmmTakeRange_dropRange : vmmTakeRange fuel s v length =
    if (s.vmms v).root = 0 then .ok (none, s)
    else bestFit fuel (s.tree v) length (s.vmms v).root 0 >>= fun best =>
      if best = 0 then .ok (none, s)
      else (s.tree v).load best >>= fun b =>
        if b.size > length then
          vmmMakeNode fuel s v (u32 (b.base + length)) (b.size - length) 0 >>= fun s => dropRange fuel s v best
        else dropRange fuel s v best := rfl

lemma vmmMakeNode_frame (h : vmmMakeNode fuel s v base size id = .ok u) :
    u.paging = s.paging ∧ u.kernelVmm = s.kernelVmm ∧ (u.vmms w).rootPd = (s.vmms w).rootPd := by
  obtain ⟨⟨p, s'⟩, -, h⟩ := bind_eq_ok.mp h
  obtain rfl := Except.ok.inj h
  exact ⟨rfl, rfl, VmmState.setTree_rootPd ..⟩

lemma dropRange_frame (h : dropRange fuel s v best = .ok (o, u)) :
    u.paging = s.paging ∧ u.kernelVmm = s.kernelVmm ∧ (u.vmms w).rootPd = (s.vmms w).rootPd := by
  obtain ⟨n, -, h⟩ := bind_eq_ok.mp h
  obtain ⟨t, -, h⟩ := bind_eq_ok.mp h
  obtain ⟨-, rfl⟩ := Prod.mk.inj (Except.ok.inj h)
  exact ⟨rfl, rfl, VmmState.setTree_rootPd ..⟩

lemma vmmTakeRange_frame (h : vmmTakeRange fuel s v length = .ok (o, u)) :
    u.paging = s.paging ∧ u.kernelVmm = s.kernelVmm ∧ (u.vmms w).rootPd = (s.vmms w).rootPd := by
  rw [vmmTakeRange_dropRange] at h
  split_ifs at h
  · obtain ⟨-, rfl⟩ := Prod.mk.inj (Except.ok.inj h)
    exact ⟨rfl, rfl, rfl⟩
  obtain ⟨best, -, h⟩ := bind_eq_ok.mp h
  split_ifs at h
  · obtain ⟨-, rfl⟩ := Prod.mk.inj (Except.ok.inj h)
    exact ⟨rfl, rfl, rfl⟩
  obtain ⟨b, -, h⟩ := bind_eq_ok.mp h
  split_ifs at h
  · obtain ⟨s', hm, h⟩ := bind_eq_ok.mp h
    obtain ⟨hp, hk, hr⟩ := vmmMakeNode_frame (w := w) hm
    obtain ⟨hp', hk', hr'⟩ := dropRange_frame (w := w) h
    exact ⟨hp'.trans hp, hk'.trans hk, hr'.trans hr⟩
  · exact dropRange_frame h

lemma vmmMakeNode_withPaging : vmmMakeNode fuel (s.withPaging p) v base size id =
    (vmmMakeNode fuel s v base size id).map fun u => u.withPaging p := by
  change (makeNode fuel (s.tree v) (slotsOf s v) base size id >>= _) = (makeNode fuel (s.tree v) (slotsOf s v) base size id >>= _).map _
  cases makeNode fuel (s.tree v) (slotsOf s v) base size id <;> rfl

lemma dropRange_withPaging : dropRange fuel (s.withPaging p) v best =
    (dropRange fuel s v best).map fun q => (q.1, q.2.withPaging p) := by
  change ((s.tree v).load best >>= fun n => deleteNode fuel (s.tree s.kernelVmm) best >>= _) =
    ((s.tree v).load best >>= fun n => deleteNode fuel (s.tree s.kernelVmm) best >>= _).map _
  cases (s.tree v).load best with
  | error e => rfl
  | ok n => cases deleteNode fuel (s.tree s.kernelVmm) best <;> rfl

lemma vmmTakeRange_withPaging : vmmTakeRange fuel (s.withPaging p) v length =
    (vmmTakeRange fuel s v length).map fun q => (q.1, q.2.withPaging p) := by
  rw [vmmTakeRange_dropRange, vmmTakeRange_dropRange]
  change (if (s.vmms v).root = 0 then _ else bestFit fuel (s.tree v) length (s.vmms v).root 0 >>= _) = _
  by_cases hr : (s.vmms v).root = 0
  · rw [if_pos hr, if_pos hr]
    rfl
  rw [if_neg hr, if_neg hr]
  cases bestFit fuel (s.tree v) length (s.vmms v).root 0 with
  | error e => rfl
  | ok best =>
    simp only [ok_bind]
    by_cases hb : best = 0
    · rw [if_pos hb, if_pos hb]
      rfl
    rw [if_neg hb, if_neg hb]
    change ((s.tree v).load best >>= _) = _
    cases (s.tree v).load best with
    | error e => rfl
    | ok b =>
      simp only [ok_bind]
      by_cases hs : b.size > length
      · rw [if_pos hs, if_pos hs, vmmMakeNode_withPaging]
        cases vmmMakeNode fuel s v (u32 (b.base + length)) (b.size - length) 0 with
        | error e => rfl
        | ok s' => exact dropRange_withPaging
      · rw [if_neg hs, if_neg hs]
        exact dropRange_withPaging

lemma vmmTakeRange_withPaging_ok (h : vmmTakeRange fuel s v length = .ok (o, u)) (p : Paging) :
    vmmTakeRange fuel (s.withPaging p) v length = .ok (o, u.withPaging p) := by
  rw [vmmTakeRange_withPaging, h]
  rfl

end WordOS.Memory
