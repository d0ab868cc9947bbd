import WordOS.Memory.VmmBounds
import WordOS.Memory.VmmTake
import WordOS.Utils.RbDeleteClean

/-! What `make_node` adds to the ranges of a free tree, and what `vmm_page_alloc` takes from them. -/

namespace WordOS.Memory

open Machine BinaryTree Utils Lib.Zipper Lib.ColoredTree

/-- A slot is needed for what is left of the range chosen. -/
def NeedsSlot (length : ℕ) (t : RbTree) : Prop :=
  match fit length [] t none with
  | some (_, node a _ _) => a.val.size > length
  | _ => False

/-- The deletion for a range of `length` bytes cuts cleanly. -/
def TakesCleanly (start k length : ℕ) (t : RbTree) : Prop :=
  match victim start k length t with
  | some (c, node a l r) => CutsCleanly c a l r
  | _ => True

instance (start k length : ℕ) (t : RbTree) : Decidable (TakesCleanly start k length t) :=
  match h : victim start k length t with
  | some (c, node a l r) => decidable_of_iff (CutsCleanly c a l r) (by rw [TakesCleanly, h])
  | some (_, nil) => isTrue (by rw [TakesCleanly, h]; trivial)
  | none => isTrue (by rw [TakesCleanly, h]; trivial)

/-- The node deleted for a range of `length` bytes takes no other range along. -/
def TakesAlone (start k length : ℕ) (t : RbTree) : Prop :=
  match victim start k length t with
  | some (_, node _ l r) => l ≠ nil → r ≠ nil → leftChild (rightmostNode l) = nil
  | _ => True

def chosen (length : ℕ) (t : RbTree) : Option ℕ :=
  match fit length [] t none with
  | some (_, node a _ _) => some a.val.base
  | _ => none

variable {s u : VmmState} {v k length fuel base size id r : ℕ} {t t' t₁ : RbTree} {e : Entry} {w : RbState} {c : PageRequest}

lemma Slots.lt_of_hasSlot (h : Slots s.nodes (slotsOf s v) k) (hs : HasSlot s v) : k < SLOTS := by
  obtain ⟨i, hi, hn⟩ := hs
  by_contra hk
  exact hn (h.taken i (by omega))

namespace Holds

lemma vmmMakeNode_ok (h : Holds s v k t) (hk : k < SLOTS) (hm : Memory.vmmMakeNode fuel s v base size id = .ok u) :
    ∃ t', Holds u v (k + 1) t' ∧ (vals t').Perm (newEntry (slotsOf s v) k base size id :: vals t) ∧
      u.kernelVmm = s.kernelVmm := by
  by_cases ht : t = nil
  · subst ht
    obtain ⟨⟨p, s'⟩, hp, hu⟩ := bind_eq_ok.mp hm
    obtain rfl := Except.ok.inj hu
    obtain ⟨s'', hs', htree, hslots, -⟩ := makeNode_root (s := s.tree v) h.tree.root h.slots hk (.inr (ne_fuel hp))
    obtain ⟨-, rfl⟩ := Prod.mk.inj (Except.ok.inj (hp.symm.trans hs'))
    have hs : (s.setTree v s').tree v = s' := by simp [VmmState.tree]
    refine ⟨_, ⟨by rw [hs]; exact htree, by simp [AllTaken, newEntry], ?_⟩, by simp, rfl⟩
    rw [VmmState.slotsOf_setTree]
    exact hslots
  · have hn := h.vmmMakeNode ht hk (.inr (ne_fuel hm))
    generalize hi : insertFix _ _ = o at hn
    cases o with
    | some t' =>
      obtain ⟨s', hs, h', -⟩ := hn
      obtain rfl := Except.ok.inj (hs.symm.trans hm)
      exact ⟨t', h', insertFix_perm hi, rfl⟩
    | none =>
      have hn : Memory.vmmMakeNode fuel s v base size id = .error .fault := hn
      rw [hn] at hm
      cases hm

lemma remains (h : Holds s v k t) (hr : Remains (s.tree v) t e w t') : Holds (s.setTree v w) v k t' := by
  have hw : (s.setTree v w).tree v = w := by simp [VmmState.tree]
  have htaken : ∀ q, (s.nodes q).Taken → (w.nodes q).Taken := fun q hq => by
    by_cases hm : q ∈ ptrs t
    · exact hr.taken (h.tree.taken_iff.mpr h.taken) q hm
    · rw [hr.outside q hm]
      exact hq
  refine ⟨by rw [hw]; exact hr.tree, ?_, ?_⟩
  · apply hr.tree.taken_iff.mp
    intro q hq
    exact htaken q (h.tree.taken_iff.mpr h.taken q (hr.ptrs q hq))
  · rw [VmmState.slotsOf_setTree]
    refine ⟨h.slots.ne_zero, fun i hi => htaken _ (h.slots.taken i hi), fun i hi hs => ?_⟩
    have hb := h.slots.blank i hi hs
    exact (hr.outside _ (h.taken.not_mem h.tree hb)).trans hb

end Holds

/-- The ranges of the tree with what is left of a range. -/
def leftOver (length : ℕ) (e : Entry) : List (ℕ × ℕ) :=
  if e.size > length then [(u32 (e.base + length), e.size - length)] else []

lemma splitOff_ranges {start : ℕ} (h : splitOff start k length t e = some t₁) :
    (ranges t₁).Perm (leftOver length e ++ ranges t) := by
  rw [splitOff] at h
  rw [leftOver]
  split_ifs at h ⊢ with hs
  · exact (insertFix_perm h).map Entry.range
  · obtain rfl := Option.some.inj h
    exact List.Perm.refl _

lemma val_eq_of_ptr {rest : Ptr → RbNode} {a b : Cell Entry} {l r : RbTree} {p : RbPath} (h : Represents rest w (plug p (node b l r)))
    (ha : a.val ∈ vals (plug p (node b l r))) (hp : b.val.ptr = a.val.ptr) : b.val = a.val := by
  have hb : b.val ∈ vals (plug p (node b l r)) := by
    rw [vals_plug]
    simp
  exact List.inj_on_of_nodup_map h.distinct hb ha hp

lemma Holds.takeRange_clean (h : Holds s s.kernelVmm k t) {p : RbPath} {a : Cell Entry} {l x : RbTree} {o : Option ℕ}
    (hfit : fit length [] t none = some (p, node a l x)) (hk : NeedsSlot length t → k < SLOTS)
    (hc : TakesCleanly (slotsOf s s.kernelVmm) k length t) (hm : vmmTakeRange fuel s s.kernelVmm length = .ok (o, u)) :
    o = some a.val.base ∧ u.kernelVmm = s.kernelVmm ∧
      ∃ k' t', Holds u u.kernelVmm k' t' ∧ (a.val.range :: ranges t').Subperm (leftOver length a.val ++ ranges t) ∧
        (TakesAlone (slotsOf s s.kernelVmm) k length t → (a.val.range :: ranges t').Perm (leftOver length a.val ++ ranges t)) := by
  have hk' : a.val.size > length → k < SLOTS := fun hgt => hk (by rw [NeedsSlot, hfit]; exact hgt)
  have htake := h.takeRange_eq hfit hk' (.inr (ne_fuel hm))
  generalize hs : splitOff _ _ _ _ _ = o' at htake
  cases o' with
  | none =>
    have htake : vmmTakeRange fuel s s.kernelVmm length = .error .fault := htake
    rw [htake] at hm
    cases hm
  | some t₁ =>
    obtain ⟨s₁, h₁, ha, -, htake⟩ := htake
    rw [htake] at hm
    obtain ⟨w, hw, hm⟩ := bind_eq_ok.mp hm
    obtain ⟨rfl, rfl⟩ := Prod.mk.inj (Except.ok.inj hm)
    obtain ⟨p₁, b, l₁, r₁, hseek, hptr, hplug⟩ := seek_eq (c := []) (p := a.val.ptr) (t := t₁) (List.mem_map_of_mem ha)
    rw [plug_nil] at hplug
    have hv : victim (slotsOf s s.kernelVmm) k length t = some (p₁, node b l₁ r₁) := by
      simp only [victim, hfit, bind, Option.bind_some, hs, hseek]
    have hclean : CutsCleanly p₁ b l₁ r₁ := by
      rwa [TakesCleanly, hv] at hc
    subst hplug
    have hval := val_eq_of_ptr h₁.tree ha hptr
    rw [← hptr] at hw
    obtain ⟨t', hrem, hlength⟩ := h₁.tree.deleteNode_clean hclean hw
    rw [hval] at hrem
    have hsub : (a.val.range :: ranges t').Subperm (leftOver length a.val ++ ranges t) :=
      hrem.ranges.trans (splitOff_ranges hs).subperm
    refine ⟨rfl, rfl, _, t', h₁.remains hrem, hsub, fun halone => ?_⟩
    rw [TakesAlone, hv] at halone
    apply hsub.perm_of_length_le
    rw [← (splitOff_ranges hs).length_eq, List.length_cons]
    exact (hlength halone).ge

lemma vmmPageAlloc_cases (h : vmmPageAlloc fuel s v c.length c.flags c.phys c.paeEnabled = .ok (r, u)) :
    vmmTakeRange fuel s v c.rounded = .ok (none, u) ∧ r = 0 ∨
      ∃ base s' p, vmmTakeRange fuel s v c.rounded = .ok (some base, s') ∧ r = u32 (base + c.phys % 4096) ∧
        u = { s' with paging := p } := by
  rw [vmmPageAlloc] at h
  obtain ⟨⟨o, s'⟩, ho, h⟩ := bind_eq_ok.mp h
  cases o with
  | none =>
    obtain ⟨rfl, rfl⟩ := Prod.mk.inj (Except.ok.inj h)
    exact .inl ⟨ho, rfl⟩
  | some base =>
    obtain ⟨p, -, h⟩ := bind_eq_ok.mp h
    obtain ⟨rfl, rfl⟩ := Prod.mk.inj (Except.ok.inj h)
    exact .inr ⟨base, s', p, ho, rfl, rfl⟩

lemma fit_entry {p : RbPath} {q : RbTree} (h : fit length [] t none = some (p, q)) :
    ∃ a l x, q = node a l x ∧ a.val ∈ vals t ∧ length ≤ a.val.size := by
  rcases fit_mem h with hno | ⟨hp, a, l, x, rfl, hle⟩
  · cases hno
  · refine ⟨a, l, x, rfl, ?_, hle⟩
    rw [← show plug p (node a l x) = t from hp, vals_plug]
    simp

end WordOS.Memory
