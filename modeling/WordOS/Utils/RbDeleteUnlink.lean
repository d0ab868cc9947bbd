import WordOS.Utils.RbDeleteBalance

/-! `delete_violations` at a black leaf, and the tree that is left when the leaf is unlinked. -/

namespace WordOS.Utils

open Machine BinaryTree Lib.Zipper Lib.ColoredTree

variable {rest : Ptr → RbNode} {s s' : RbState} {f : Frame (Cell Entry)} {c : RbPath} {a : Cell Entry} {fuel : ℕ}

/-- The ranges are in the same order, with the leaf `a` under the same node, on the same side. -/
def InPlace (rest : Ptr → RbNode) (f : Frame (Cell Entry)) (c : RbPath) (a : Cell Entry) (s' : RbState) : Prop :=
  ∃ k f' c', f'.side = f.side ∧ f'.value.val = f.value.val ∧ Represents rest s' (plug (f' :: c') (node (a.paint k) nil nil)) ∧
    vals (plug (f' :: c') (node (a.paint k) nil nil)) = vals (plug (f :: c) (node a nil nil))

/-- With the link of `f` to its leaf cut the tree is a valid one, of the other ranges in order. -/
def UnlinksValid (f : Frame (Cell Entry)) (c : RbPath) (s' : RbState) : Prop :=
  ∃ s₁ t, s'.modify f.value.val.ptr (·.setChild f.side 0) = .ok s₁ ∧ Represents s₁.nodes s₁ t ∧
    vals t = vals (plug (f :: c) nil) ∧ RedBlack t

/-- What `delete_node` needs of `delete_violations` before it unlinks a leaf. -/
structure Prepared (rest : Ptr → RbNode) (f : Frame (Cell Entry)) (c : RbPath) (a : Cell Entry) (s' : RbState) : Prop where
  inPlace : InPlace rest f c a s'
  unlinks : UnlinksValid f c s'

lemma Represents.deleteViolations_leaf (h : Represents rest s (plug (f :: c) (node a nil nil)))
    (hb : RedBlack (plug (f :: c) (node a nil nil))) (ha : a.color = .black)
    (hf : climb (f :: c) < fuel ∨ Utils.deleteViolations fuel s a.val.ptr ≠ .error .fuel) :
    ∃ s', Utils.deleteViolations fuel s a.val.ptr = .ok s' ∧ InPlace rest f c a s' ∧
      (UnlinksValid f c s' ↔ Repairs (f :: c)) := by
  obtain ⟨q, hq⟩ := exists_deleteFix_of_redBlack hb
  have hv := h.deleteViolations (e := .left) hf
  rw [hq] at hv
  obtain ⟨s', he, h'⟩ := hv
  have hkeeps := (deleteFix_rebalances hq).keeps
  have hcut := redBlack_removed hb hq
  rw [ha] at hcut
  obtain ⟨k, _ | ⟨f', c'⟩⟩ := q
  · exact (List.cons_ne_nil _ _ (hkeeps.eq_nil rfl)).elim
  have hhead := hkeeps.head
  simp only [ancestors_cons, List.head?_cons, Option.some.injEq, Prod.mk.injEq] at hhead
  obtain ⟨hside, hval⟩ := hhead
  obtain ⟨s₁, he₁, h₁, -⟩ := h'.detach
  rw [hside, hval] at he₁
  refine ⟨s', he, ⟨k, f', c', hside, hval, h', hkeeps.vals_plug (by simp)⟩, ?_⟩
  constructor
  · rintro ⟨s₂, t, he₂, h₂, -, hvalid⟩
    obtain rfl := Except.ok.inj (he₁.symm.trans he₂)
    rw [h₂.unique h₁] at hvalid
    exact (hcut.mp hvalid).resolve_left (by simp)
  · intro hr
    exact ⟨s₁, _, he₁, h₁, hkeeps.vals_plug rfl, hcut.mpr (.inr hr)⟩

/-- Of the leaves, those where the climb does not stop at a red far nephew alone. -/
theorem deleteViolations_prepares_iff (h : Represents rest s (plug (f :: c) (node a nil nil)))
    (hb : RedBlack (plug (f :: c) (node a nil nil))) (ha : a.color = .black)
    (hf : 2 * (ptrs (plug (f :: c) (node a nil nil))).length < fuel) :
    (∃ s', deleteViolations fuel s a.val.ptr = .ok s' ∧ Prepared rest f c a s') ↔ Repairs (f :: c) := by
  have hlen := (ptrs_plug (f :: c) (node a nil nil)).length_eq
  rw [List.length_append] at hlen
  have hclimb : climb (f :: c) < fuel := (climb_le (f :: c)).trans_lt (by omega)
  obtain ⟨s', he, hplace, hiff⟩ := h.deleteViolations_leaf hb ha (.inl hclimb)
  constructor
  · rintro ⟨s₁, he₁, -, hunlinks⟩
    obtain rfl := Except.ok.inj (he.symm.trans he₁)
    exact hiff.mp hunlinks
  · intro hr
    exact ⟨s', he, hplace, hiff.mpr hr⟩

/-- The root of a tree with the node 96 on the right. -/
def rootOver96 (t : RbTree) : Frame (Cell Entry) :=
  ⟨.left, ⟨.black, 64, 0, 0x10000, 0x2000, 3⟩, node ⟨.black, 96, 0, 0x20000, 0x3000, 3⟩ nil t⟩

def leaf32 : Cell Entry := ⟨.black, 32, 0, 0x1000, 0x1000, 3⟩

theorem deleteViolations_prepares_iff_leaf :
    ∃ s', deleteViolations 7 ⟨lay emptyStore 0 threeRanges, 64⟩ 32 = .ok s' ∧ Prepared emptyStore (rootOver96 nil) [] leaf32 s' := by
  have h := represents_lay emptyStore (t := threeRanges) (by decide) (by decide)
  have hb : RedBlack threeRanges := ⟨rfl, ⟨by decide, ⟨by decide, trivial, trivial⟩, by decide, trivial, trivial⟩, 2, 1, rfl,
    ⟨0, rfl, rfl, rfl⟩, 0, rfl, rfl, rfl⟩
  have hfuel : 2 * (ptrs threeRanges).length < 7 := by decide
  have hiff := deleteViolations_prepares_iff (f := rootOver96 nil) (c := []) (a := leaf32) h hb rfl hfuel
  refine hiff.mpr ⟨fun hf => ?_, fun _ _ => trivial⟩
  simp [FarOnly, Side.pick, rootOver96] at hf

def farNephew : RbTree := node ⟨.red, 128, 0, 0x30000, 0x4000, 3⟩ nil nil

/-- The sibling of 32 has a red child, on the side away from it. -/
def farRange : RbTree := plug [rootOver96 farNephew] (node leaf32 nil nil)

theorem deleteViolations_prepares_counterexample :
    ¬ ∀ (rest : Ptr → RbNode) (s : RbState) (f : Frame (Cell Entry)) (c : RbPath) (a : Cell Entry),
      Represents rest s (plug (f :: c) (node a nil nil)) → RedBlack (plug (f :: c) (node a nil nil)) → a.color = .black →
        ∃ fuel s', deleteViolations fuel s a.val.ptr = .ok s' ∧ Prepared rest f c a s' := by
  intro hclaim
  have h := represents_lay emptyStore (t := farRange) (by decide) (by decide)
  have hb : RedBlack farRange := ⟨rfl, ⟨by decide, ⟨by decide, trivial, trivial⟩, by decide, trivial, by decide, trivial, trivial⟩,
    2, 1, rfl, ⟨0, rfl, rfl, rfl⟩, 0, rfl, rfl, rfl, rfl⟩
  obtain ⟨fuel, s₁, he₁, -, hunlinks⟩ := hclaim emptyStore _ (rootOver96 farNephew) [] leaf32 h hb rfl
  obtain ⟨s', he, -, hiff⟩ := Represents.deleteViolations_leaf (f := rootOver96 farNephew) (c := []) (a := leaf32) h hb rfl
    (.inr (ne_fuel he₁))
  obtain rfl := Except.ok.inj (he.symm.trans he₁)
  have hrep := hiff.mp hunlinks
  exact hrep.left ⟨by decide, rfl⟩

end WordOS.Utils
