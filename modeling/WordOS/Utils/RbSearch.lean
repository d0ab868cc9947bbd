import WordOS.Utils.RbInsert

/-! `find_node` on represented trees. -/

namespace WordOS.Utils

open Machine BinaryTree Lib.Zipper Lib.ColoredTree

def findNode : ℕ → RbState → (size : ℕ) → (curNode : Ptr) → Exec Ptr
  | 0, _, _, _ => .error .fuel
  | fuel + 1, s, size, curNode =>
    if curNode = 0 then .ok 0
    else do
      let n ← s.load curNode
      if n.size = size then return curNode
      else if n.size ≤ size then findNode fuel s size n.right
      else findNode fuel s size n.left

def find (size : ℕ) : RbTree → RbTree
  | nil => nil
  | node a l r => if a.val.size = size then node a l r else if a.val.size ≤ size then find size r else find size l

variable {rest : Ptr → RbNode} {s : RbState} {c : RbPath} {t l r : RbTree} {a : Cell Entry} {e : Entry} {size fuel : ℕ}

lemma findNode_ok (h : Represents rest s (plug c t)) (hf : (ptrs t).length < fuel) :
    findNode fuel s size (addr t) = .ok (addr (find size t)) := by
  induction fuel generalizing c t with
  | zero => exact absurd hf (Nat.not_lt_zero _)
  | succ fuel ih =>
    cases t with
    | nil => rfl
    | node a l r =>
      have hl := h.load (d := .left) (a := a)
      have hz := h.ptr_ne_zero (d := .left) (a := a)
      have hn := length_ptrs_node a l r
      simp only [findNode, addr_node, if_neg hz, hl, ok_bind, record_size, find]
      split_ifs with he hle
      · rfl
      · exact ih (c := ⟨.right, a, l⟩ :: c) (t := r) h (by omega)
      · exact ih (c := ⟨.left, a, r⟩ :: c) (t := l) h (by omega)

lemma Sorted.node_iff : Sorted (node a l r) ↔
    Sorted l ∧ Sorted r ∧ (∀ e ∈ vals l, e.size ≤ a.val.size) ∧ (∀ e ∈ vals r, a.val.size ≤ e.size) := by
  rw [Sorted, vals_node, List.pairwise_append, List.pairwise_cons]
  constructor
  · rintro ⟨hl, ⟨hr, hr'⟩, hlr⟩
    exact ⟨hl, hr', fun e he => hlr e he a.val List.mem_cons_self, hr⟩
  · rintro ⟨hl, hr, hle, hge⟩
    refine ⟨hl, ⟨hge, hr⟩, fun e he e' he' => ?_⟩
    rcases List.mem_cons.mp he' with rfl | he'
    · exact hle e he
    · exact (hle e he).trans (hge e' he')

lemma eq_node_of_sole (h : (ptrs t).length = 1) (he : e ∈ vals t) : ∃ a, t = node a nil nil ∧ e = a.val := by
  cases t with
  | nil => cases he
  | node a l r =>
    have hl : (vals l).length = 0 ∧ (vals r).length = 0 := by
      simp only [ptrs, vals_node, List.length_map, List.length_append, List.length_cons] at h
      omega
    have hnil : ∀ {t : RbTree}, (vals t).length = 0 → t = nil := by
      intro t ht
      cases t with
      | nil => rfl
      | node b x y => simp at ht
    obtain rfl := hnil hl.1
    obtain rfl := hnil hl.2
    exact ⟨a, rfl, by simpa using he⟩

lemma mem_vals_node : e ∈ vals (node a l r) ↔ e ∈ vals l ∨ e = a.val ∨ e ∈ vals r := by
  rw [vals_node, List.mem_append, List.mem_cons]

lemma find_of_mem (ho : Sorted t) (he : e ∈ vals t) (hs : e.size = size) :
    ∃ b l r, find size t = node b l r ∧ b.val ∈ vals t ∧ b.val.size = size := by
  induction t with
  | nil => cases he
  | node a l r ihl ihr =>
    obtain ⟨hl, hr, hle, hge⟩ := Sorted.node_iff.mp ho
    rw [find]
    split_ifs with heq hlt
    · exact ⟨a, l, r, rfl, mem_vals_node.mpr (.inr (.inl rfl)), heq⟩
    · have her : e ∈ vals r := by
        rcases mem_vals_node.mp he with he | rfl | he
        · have := hle e he
          omega
        · exact absurd hs heq
        · exact he
      obtain ⟨b, x, y, hf, hb, hbs⟩ := ihr hr her
      exact ⟨b, x, y, hf, mem_vals_node.mpr (.inr (.inr hb)), hbs⟩
    · have hel : e ∈ vals l := by
        rcases mem_vals_node.mp he with he | rfl | he
        · exact he
        · exact absurd hs heq
        · have := hge e he
          omega
      obtain ⟨b, x, y, hf, hb, hbs⟩ := ihl hl hel
      exact ⟨b, x, y, hf, mem_vals_node.mpr (.inl hb), hbs⟩

lemma find_size (hf : find size t = node a l r) : a.val ∈ vals t ∧ a.val.size = size := by
  induction t with
  | nil => cases hf
  | node b x y ihx ihy =>
    rw [find] at hf
    split_ifs at hf with heq hlt
    · obtain ⟨rfl, rfl, rfl⟩ := BinaryTree.node.inj hf
      exact ⟨mem_vals_node.mpr (.inr (.inl rfl)), heq⟩
    · exact ⟨mem_vals_node.mpr (.inr (.inr (ihy hf).1)), (ihy hf).2⟩
    · exact ⟨mem_vals_node.mpr (.inl (ihx hf).1), (ihx hf).2⟩

end WordOS.Utils
