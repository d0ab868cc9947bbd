import WordOS.Lib.Runs
import WordOS.Memory.VmmTree
import WordOS.Utils.RbDeleteRoot

/-! Allocations from a VMM whose free tree is one node. -/

namespace WordOS.Memory

open Machine BinaryTree Utils Lib.Zipper Lib.ColoredTree Lib.Runs

lemma slot_ne {a j k : ℕ} (h : j ≠ k) : a + 32 * j ≠ a + 32 * k := by
  omega

/-- The free tree of the VMM at `v` is one node, in the first slot; `k` slots are taken. -/
structure Single (s : VmmState) (v k base size : ℕ) : Prop where
  slots : Slots s.nodes (slotsOf s v) k
  pos : 0 < k
  root : (s.vmms v).root = slotsOf s v
  holds : ∃ id color, s.nodes (slotsOf s v) = ⟨id, base, size, 3, color, 0, 0, 0⟩ ∧ (v = s.kernelVmm → color = .black)

namespace Single

variable {s t : VmmState} {v k base size length fuel : ℕ}

lemma root_ne_zero (h : Single s v k base size) : (s.vmms v).root ≠ 0 := by
  rw [h.root]
  exact h.slots.ne_zero

lemma load (h : Single s v k base size) : ∃ id color, s.nodes (slotsOf s v) = ⟨id, base, size, 3, color, 0, 0, 0⟩ ∧
    (s.tree v).load (slotsOf s v) = .ok ⟨id, base, size, 3, color, 0, 0, 0⟩ := by
  obtain ⟨id, color, hn, -⟩ := h.holds
  refine ⟨id, color, hn, ?_⟩
  rw [RbState.load, if_neg h.slots.ne_zero]
  exact congrArg _ hn

lemma represents (h : Single s v k base size) : ∃ id color, (v = s.kernelVmm → color = .black) ∧
    Represents s.nodes (s.tree v) (node ⟨color, ⟨slotsOf s v, id, base, size, 3⟩⟩ nil nil) := by
  obtain ⟨id, color, hn, hc⟩ := h.holds
  refine ⟨id, color, hc, h.root, ⟨hn, trivial, trivial⟩, by simp [ptrs], ?_, fun _ _ => rfl⟩
  simpa [ptrs] using h.slots.ne_zero.symm

lemma makeNode (h : Single s v k base size) (hk : k < SLOTS) {base' size' : ℕ} (hs : size' ≤ size)
    (hf : k + 1 < fuel ∨ vmmMakeNode fuel s v base' size' 0 ≠ .error .fuel) :
    ∃ s' id, vmmMakeNode fuel s v base' size' 0 = .ok (s.setTree v s') ∧
      Represents s'.nodes s' (node ⟨.black, ⟨slotsOf s v, id, base, size, 3⟩⟩
        (node ⟨.red, newEntry (slotsOf s v) k base' size' 0⟩ nil nil) nil) ∧
      Slots s'.nodes (slotsOf s v) (k + 1) ∧
      ∀ q, q ≠ slotsOf s v → q ≠ slotsOf s v + 32 * k → s'.nodes q = s.nodes q := by
  obtain ⟨id, color, -, hr⟩ := h.represents
  have hf' : k + 1 < fuel ∨ Utils.makeNode fuel (s.tree v) (slotsOf s v) base' size' 0 ≠ .error .fuel :=
    hf.imp_right (mt fun he => by rw [vmmMakeNode, he, error_bind])
  have hm := makeNode_insert hr (by simp) (by simp [AllTaken]) h.slots hk (hf'.imp_left (by simp [ptrs]; omega))
  have hd : descend size' [] (paint .black (node ⟨color, ⟨slotsOf s v, id, base, size, 3⟩⟩ nil nil)) =
      [⟨.left, ⟨.black, ⟨slotsOf s v, id, base, size, 3⟩⟩, nil⟩] := by
    simp [descend, Cell.paint, Nat.not_lt.mpr hs]
  rw [hd, insertFix_black rfl] at hm
  obtain ⟨s', hm, hr', -, hs', hout⟩ := hm
  refine ⟨s', id, by rw [vmmMakeNode, hm]; rfl, hr', hs', fun q hq hqk => hout q ?_ hqk⟩
  simpa [ptrs] using hq

lemma bestFit (h : Single s v k base size) (hf : 1 < fuel ∨ bestFit fuel (s.tree v) length (s.vmms v).root 0 ≠ .error .fuel) :
    bestFit fuel (s.tree v) length (s.vmms v).root 0 = .ok (if length ≤ size then slotsOf s v else 0) := by
  obtain ⟨i, color, -, hr⟩ := h.represents
  set t := node (⟨color, ⟨slotsOf s v, i, base, size, 3⟩⟩ : Cell Entry) nil nil with ht
  have hroot : addr t = (s.vmms v).root := h.root.symm
  rw [← hroot] at hf ⊢
  have hb : Memory.bestFit fuel (s.tree v) length (addr t) (fitAddr none) = _ :=
    bestFit_ok (c := []) hr (hf.imp_left (by simp [ht, ptrs]))
  refine hb.trans (congrArg _ ?_)
  simp only [ht, fit]
  split_ifs <;> first | rfl | omega

lemma bestFit_of (h : Single s v k base size) (hf : 1 < fuel ∨ vmmTakeRange fuel s v length ≠ .error .fuel) :
    Memory.bestFit fuel (s.tree v) length (s.vmms v).root 0 = .ok (if length ≤ size then slotsOf s v else 0) :=
  h.bestFit (hf.imp_right (mt fun he => by rw [vmmTakeRange, if_neg h.root_ne_zero, he, error_bind]))

lemma takeRange (h : Single s v k base size) (hlen : length < size) (hk : k < SLOTS)
    (hf : k + 1 < fuel ∨ vmmTakeRange fuel s v length ≠ .error .fuel) :
    ∃ t, vmmTakeRange fuel s v length = .ok (some base, t) ∧ Single t v (k + 1) (u32 (base + length)) (size - length) ∧
      t.kernelVmm = s.kernelVmm ∧ (t.vmms v).low = (s.vmms v).low := by
  have hb := h.bestFit_of (hf.imp_left (by omega))
  rw [if_pos hlen.le] at hb
  have hz := h.slots.ne_zero
  obtain ⟨i, color, hn, hl⟩ := h.load
  have heq : vmmTakeRange fuel s v length = (do
      let u ← vmmMakeNode fuel s v (u32 (base + length)) (size - length) 0
      let base := (← (u.tree v).load (slotsOf s v)).base
      let t ← deleteNode fuel (u.tree u.kernelVmm) (slotsOf s v)
      return (some base, u.setTree u.kernelVmm t)) := by
    rw [vmmTakeRange, if_neg h.root_ne_zero, hb, ok_bind, if_neg hz, hl, ok_bind, if_pos hlen]
  rw [heq] at hf ⊢
  have hf' : k + 1 < fuel ∨ vmmMakeNode fuel s v (u32 (base + length)) (size - length) 0 ≠ .error .fuel :=
    hf.imp_right (mt fun he => by rw [he, error_bind])
  obtain ⟨s', i', hm, hrep, hs', hout⟩ := h.makeNode hk (Nat.sub_le size length) hf'
  have hl' : ((s.setTree v s').tree v).load (slotsOf s v) =
      .ok ⟨i', base, size, 3, .black, slotsOf s v + 32 * k, 0, 0⟩ := by
    rw [RbState.load, if_neg hz]
    exact congrArg _ hrep.rep.1
  rw [hm, ok_bind, hl', ok_bind] at hf ⊢
  dsimp only at hf
  -- the remainder moves up into the node
  have hroot : s'.reroot ((s.setTree v s').vmms s.kernelVmm).root = (s.setTree v s').tree s.kernelVmm := rfl
  have hf' : 1 < fuel ∨ deleteNode fuel (s'.reroot ((s.setTree v s').vmms s.kernelVmm).root) (slotsOf s v) ≠ .error .fuel :=
    hf.imp (by omega) (mt fun he => congrArg (· >>= _) he)
  have hdel := (hrep.deleteNode_single_reroot (c := []) (d := .left) hf').2 rfl
  obtain ⟨c, hc, -, u, hd, hu, -, hout', htk⟩ := hdel
  rw [if_neg id, hroot] at hd
  set t₂ := node (⟨.black, ⟨slotsOf s v, i', base, size, 3⟩⟩ : Cell Entry)
    (node ⟨.red, newEntry (slotsOf s v) k (u32 (base + length)) (size - length) 0⟩ nil nil) nil with ht₂
  have hmem : ∀ q, q ∈ ptrs t₂ ↔ q = slotsOf s v + 32 * k ∨ q = slotsOf s v := fun q => by simp [ht₂, ptrs, newEntry]
  have htaken : ∀ q, (s'.nodes q).Taken → (u.nodes q).Taken := fun q ht => by
    by_cases hq : q ∈ ptrs t₂
    · refine htk (hrep.taken_iff.mpr ?_) q hq
      simp [ht₂, newEntry]
    · rwa [hout' q hq]
  set w := u.reroot ((s.setTree v s').vmms s.kernelVmm).root with hw
  refine ⟨(s.setTree v s').setTree s.kernelVmm w, ?_, ?_, rfl, by simp⟩
  · change (deleteNode fuel ((s.setTree v s').tree s.kernelVmm) (slotsOf s v) >>= _) = _
    rw [hd]
    rfl
  have hslots : slotsOf ((s.setTree v s').setTree s.kernelVmm w) v = slotsOf s v := by simp
  have hs'r : s'.root = slotsOf s v := hrep.root
  have hroot : (((s.setTree v s').setTree s.kernelVmm w).vmms v).root = slotsOf s v := by
    by_cases hv : v = s.kernelVmm
    · subst hv
      rw [VmmState.setTree_root_self, hw, reroot_root, VmmState.setTree_root_self, hs'r]
    · rw [VmmState.setTree_vmms_ne hv, VmmState.setTree_root_self, hs'r]
  refine ⟨⟨?_, fun j hj => ?_, fun j hj hjs => ?_⟩, by omega, by rw [hroot, hslots], ?_⟩
  · rw [hslots]
    exact hz
  · rw [hslots]
    exact htaken _ (hs'.taken j hj)
  · rw [hslots]
    have hk : slotsOf s v + 32 * j ≠ slotsOf s v + 32 * k := slot_ne (by omega)
    have h0 : slotsOf s v + 32 * j ≠ slotsOf s v + 32 * 0 := slot_ne (by omega)
    exact (hout' _ (mt (hmem _).mp (not_or.mpr ⟨hk, h0⟩))).trans (hs'.blank j hj hjs)
  · rw [hslots]
    refine ⟨i', c, hu.rep.1, fun hv => hc ?_⟩
    replace hv : v = s.kernelVmm := hv
    rw [← hv, VmmState.setTree_root_self, hs'r]

lemma takeRange_none (h : Single s v k base size) (hlen : size < length)
    (hf : 1 < fuel ∨ vmmTakeRange fuel s v length ≠ .error .fuel) : vmmTakeRange fuel s v length = .ok (none, s) := by
  have hb := h.bestFit_of hf
  rw [if_neg (by omega)] at hb
  rw [vmmTakeRange, if_neg h.root_ne_zero, hb, ok_bind, if_pos rfl]
  rfl

lemma takeRange_all (h : Single s v k base size) (hf : 1 < fuel ∨ vmmTakeRange fuel s v size ≠ .error .fuel) :
    vmmTakeRange fuel s v size = .error .fault := by
  have hb := h.bestFit_of hf
  have hz := h.slots.ne_zero
  obtain ⟨i, color, hn, hl⟩ := h.load
  rw [if_pos le_rfl] at hb
  cases fuel with
  | zero => simp [Memory.bestFit] at hb
  | succ fuel =>
    have hsole : deleteNode (fuel + 1) (s.tree s.kernelVmm) (slotsOf s v) = .error .fault :=
      deleteNode_sole hz (congrArg RbNode.left hn) (congrArg RbNode.right hn) (congrArg RbNode.parent hn)
    rw [vmmTakeRange, if_neg h.root_ne_zero, hb, ok_bind, if_neg hz, hl, ok_bind, if_neg (lt_irrefl _)]
    simp only [pure_eq, ok_bind, hl, hsole, error_bind]

lemma pageAlloc {flags phys r : ℕ} {pae : Bool} (h : Single s v k base size)
    (hk : bytePgroundup (u32 length) < size → k < SLOTS) (ha : vmmPageAlloc fuel s v length flags phys pae = .ok (r, t)) :
    (size < bytePgroundup (u32 length) ∧ r = 0 ∧ t = s) ∨
      (bytePgroundup (u32 length) < size ∧ r = u32 (base + phys % 4096) ∧
        Single t v (k + 1) (u32 (base + bytePgroundup (u32 length))) (size - bytePgroundup (u32 length)) ∧
        t.kernelVmm = s.kernelVmm ∧ (t.vmms v).low = (s.vmms v).low) := by
  rw [vmmPageAlloc] at ha
  generalize bytePgroundup (u32 length) = l at *
  have hne : vmmTakeRange fuel s v l ≠ .error .fuel := fun he => by
    rw [he] at ha
    cases ha
  rcases lt_trichotomy size l with hlt | rfl | hlt
  · rw [h.takeRange_none hlt (.inr hne)] at ha
    obtain ⟨rfl, rfl⟩ := Prod.mk.injEq .. ▸ Except.ok.inj ha
    exact .inl ⟨hlt, rfl, rfl⟩
  · rw [h.takeRange_all (.inr hne)] at ha
    cases ha
  · obtain ⟨u, he, hu, hku, hlu⟩ := h.takeRange hlt (hk hlt) (.inr hne)
    rw [he, ok_bind] at ha
    obtain ⟨p, -, ha⟩ := bind_eq_ok.mp ha
    obtain ⟨rfl, rfl⟩ := Prod.mk.injEq .. ▸ Except.ok.inj ha
    exact .inr ⟨hlt, rfl, ⟨hu.slots, hu.pos, hu.root, hu.holds⟩, hku, hlu⟩

end Single

end WordOS.Memory
