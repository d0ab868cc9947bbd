import WordOS.Utils.RbTree

/-! When the linked nodes of a state form a given tree, and what a rotation makes of it. -/

namespace WordOS.Utils

open Machine BinaryTree Lib.Zipper Lib.ColoredTree

/-- A node of the tree, by its address and what it holds besides its colour and links. -/
structure Entry where
  ptr : Ptr
  id : ℕ
  base : ℕ
  size : ℕ
  flags : ℕ
  deriving DecidableEq, Repr

abbrev RbTree := BinaryTree (Cell Entry)
abbrev RbPath := Path (Cell Entry)

/-- The node with child `x` on side `d`, child `y` on the other, and parent `p`. -/
def record (d : Side) (a : Cell Entry) (x y p : Ptr) : RbNode :=
  match d with
  | .left => ⟨a.val.id, a.val.base, a.val.size, a.val.flags, a.color, x, y, p⟩
  | .right => ⟨a.val.id, a.val.base, a.val.size, a.val.flags, a.color, y, x, p⟩

section

variable (d : Side) (a : Cell Entry) (x y p : Ptr)

lemma record_flip : record d.flip a x y p = record d a y x p := by cases d <;> rfl

@[simp] lemma record_child : (record d a x y p).child d = x := by cases d <;> rfl
@[simp] lemma record_child_flip : (record d a x y p).child d.flip = y := by cases d <;> rfl
@[simp] lemma record_parent : (record d a x y p).parent = p := by cases d <;> rfl
@[simp] lemma record_color : (record d a x y p).color = a.color := by cases d <;> rfl
@[simp] lemma record_size : (record d a x y p).size = a.val.size := by cases d <;> rfl
@[simp] lemma record_setChild (q : Ptr) :
    (record d a x y p).setChild d q = record d a q y p := by cases d <;> rfl
@[simp] lemma record_setChild_flip (q : Ptr) :
    (record d a x y p).setChild d.flip q = record d a x q p := by cases d <;> rfl
@[simp] lemma record_setParent (q : Ptr) :
    (record d a x y p).setParent q = record d a x y q := by cases d <;> rfl
@[simp] lemma record_setColor (k : Color) :
    (record d a x y p).setColor k = record d (a.paint k) x y p := by cases d <;> rfl

end

def addr : RbTree → Ptr
  | nil => 0
  | node a _ _ => a.val.ptr

@[simp] lemma addr_nil : addr nil = 0 := rfl
@[simp] lemma addr_node (a : Cell Entry) (l r) : addr (node a l r) = a.val.ptr := rfl
@[simp] lemma addr_fork (d : Side) (a : Cell Entry) (x y) : addr (fork d a x y) = a.val.ptr := by
  cases d <;> rfl

def parentAddr : RbPath → Ptr
  | [] => 0
  | f :: _ => f.value.val.ptr

def ptrs (t : RbTree) : List Ptr := (vals t).map Entry.ptr

def pathPtrs : RbPath → List Ptr
  | [] => []
  | f :: c => f.value.val.ptr :: (ptrs f.sibling ++ pathPtrs c)

@[simp] lemma ptrs_nil : ptrs nil = [] := rfl

lemma ptrs_fork (d : Side) (a : Cell Entry) (x y) :
    (ptrs (fork d a x y)).Perm (a.val.ptr :: (ptrs x ++ ptrs y)) := by
  cases d
  · simp [fork, ptrs]
  · simp only [fork, ptrs, vals_node, List.map_append, List.map_cons]
    exact List.perm_middle.trans (List.perm_append_comm.cons _)

lemma ptrs_plug (c : RbPath) (t : RbTree) : (ptrs (plug c t)).Perm (pathPtrs c ++ ptrs t) := by
  induction c generalizing t with
  | nil => simp [pathPtrs]
  | cons f c ih =>
    refine (ih _).trans (List.perm_iff_count.mpr ?_)
    intro q
    simp only [Frame.plug, pathPtrs, List.count_append, List.count_cons, List.cons_append,
      (ptrs_fork f.side f.value t f.sibling).count_eq q]
    omega

/-- The nodes of `t` lie at their addresses with the links of its shape, under parent `p`. -/
def Rep (n : Ptr → RbNode) : Ptr → RbTree → Prop
  | _, nil => True
  | p, node a l r => n a.val.ptr = record .left a (addr l) (addr r) p ∧ Rep n a.val.ptr l ∧ Rep n a.val.ptr r

/-- The same for a path whose hole is filled by the node at `hole`. -/
def RepPath (n : Ptr → RbNode) (root : Ptr) : RbPath → (hole : Ptr) → Prop
  | [], hole => root = hole
  | f :: c, hole =>
    n f.value.val.ptr = record f.side f.value hole (addr f.sibling) (parentAddr c) ∧
      Rep n f.value.val.ptr f.sibling ∧ RepPath n root c f.value.val.ptr

lemma rep_fork {n : Ptr → RbNode} {p : Ptr} (d : Side) (a : Cell Entry) (x y) :
    Rep n p (fork d a x y) ↔
      n a.val.ptr = record d a (addr x) (addr y) p ∧ Rep n a.val.ptr x ∧ Rep n a.val.ptr y := by
  cases d
  · rfl
  · simp only [fork, Rep, ← record_flip .right, Side.flip, and_comm (a := Rep n a.val.ptr x)]

lemma rep_plug {n : Ptr → RbNode} {root : Ptr} (c : RbPath) (t) :
    root = addr (plug c t) ∧ Rep n 0 (plug c t) ↔ RepPath n root c (addr t) ∧ Rep n (parentAddr c) t := by
  induction c generalizing t with
  | nil => rfl
  | cons f c ih =>
    rw [plug_cons, ih, Frame.plug, rep_fork, addr_fork, RepPath, parentAddr]
    tauto

/-- The state holds `t`, with parent links and root pointer in place, and `rest` elsewhere. -/
structure Represents (rest : Ptr → RbNode) (s : RbState) (t : RbTree) : Prop where
  root : s.root = addr t
  rep : Rep s.nodes 0 t
  distinct : (ptrs t).Nodup
  nonnull : 0 ∉ ptrs t
  rest : ∀ p, p ∉ ptrs t → s.nodes p = rest p

section

variable {n n' : Ptr → RbNode} {root p p' q : Ptr} {t : RbTree} {c : RbPath}

lemma mem_ptrs_node {a : Cell Entry} {l r : RbTree} :
    q ∈ ptrs (node a l r) ↔ q = a.val.ptr ∨ q ∈ ptrs l ∨ q ∈ ptrs r := by
  simp only [ptrs, vals_node, List.map_append, List.map_cons, List.mem_append, List.mem_cons]
  tauto

lemma length_ptrs_node (a : Cell Entry) (l r : RbTree) : (ptrs (node a l r)).length = (ptrs l).length + (ptrs r).length + 1 := by
  simp only [ptrs, vals_node, List.map_append, List.map_cons, List.length_append, List.length_cons, Nat.add_assoc]

lemma mem_ptrs_fork {d : Side} {a : Cell Entry} {x y : RbTree} :
    q ∈ ptrs (fork d a x y) ↔ q = a.val.ptr ∨ q ∈ ptrs x ∨ q ∈ ptrs y := by
  simp [(ptrs_fork d a x y).mem_iff]

lemma addr_mem (h : t ≠ nil) : addr t ∈ ptrs t := by
  cases t with
  | nil => exact (h rfl).elim
  | node a l r => exact mem_ptrs_node.mpr (.inl rfl)

lemma Rep.congr (h : Rep n p t) (hn : ∀ q ∈ ptrs t, n' q = n q) : Rep n' p t := by
  induction t generalizing p with
  | nil => trivial
  | node a l r ihl ihr =>
    obtain ⟨ha, hl, hr⟩ := h
    exact ⟨(hn _ (mem_ptrs_node.mpr (.inl rfl))).trans ha,
      ihl hl fun q hq => hn q (mem_ptrs_node.mpr (.inr (.inl hq))),
      ihr hr fun q hq => hn q (mem_ptrs_node.mpr (.inr (.inr hq)))⟩

lemma RepPath.congr (h : RepPath n root c q) (hn : ∀ q ∈ pathPtrs c, n' q = n q) :
    RepPath n' root c q := by
  induction c generalizing q with
  | nil => exact h
  | cons f c ih =>
    obtain ⟨hf, hs, hc⟩ := h
    exact ⟨(hn _ (by simp [pathPtrs])).trans hf,
      hs.congr fun q hq => hn q (by simp [pathPtrs, hq]),
      ih hc fun q hq => hn q (by simp [pathPtrs, hq])⟩

lemma Rep.reparent (h : Rep n p t) (hr : t ≠ nil → n' (addr t) = (n (addr t)).setParent p')
    (hn : ∀ q ∈ ptrs t, q ≠ addr t → n' q = n q) (hd : (ptrs t).Nodup) : Rep n' p' t := by
  cases t with
  | nil => trivial
  | node a l r =>
    obtain ⟨ha, hl, hr'⟩ := h
    have hd' := (ptrs_fork .left a l r).nodup_iff.mp hd
    simp only [List.nodup_cons, List.mem_append, not_or] at hd'
    refine ⟨?_, hl.congr ?_, hr'.congr ?_⟩
    · have := hr (by simp)
      simpa [ha] using this
    · intro q hq
      exact hn q (mem_ptrs_node.mpr (.inr (.inl hq))) (by rintro rfl; exact hd'.1.1 hq)
    · intro q hq
      exact hn q (mem_ptrs_node.mpr (.inr (.inr hq))) (by rintro rfl; exact hd'.1.2 hq)

end

/-- Memory `n` after the nodes of a tree were laid at their addresses, under parent `p`. -/
def lay (n : Ptr → RbNode) : Ptr → RbTree → Ptr → RbNode
  | _, nil => n
  | p, node a l r =>
    Function.update (lay (lay n a.val.ptr l) a.val.ptr r) a.val.ptr (record .left a (addr l) (addr r) p)

lemma lay_outside {n : Ptr → RbNode} {p q : Ptr} {t : RbTree} (hq : q ∉ ptrs t) : lay n p t q = n q := by
  induction t generalizing n p with
  | nil => rfl
  | node a l r ihl ihr =>
    rw [mem_ptrs_node, not_or, not_or] at hq
    rw [lay, Function.update_of_ne hq.1, ihr hq.2.2, ihl hq.2.1]

lemma rep_lay {n : Ptr → RbNode} {p : Ptr} {t : RbTree} (hd : (ptrs t).Nodup) : Rep (lay n p t) p t := by
  induction t generalizing n p with
  | nil => trivial
  | node a l r ihl ihr =>
    have hd' := (ptrs_fork .left a l r).nodup_iff.mp hd
    simp only [List.nodup_cons, List.mem_append, not_or, List.nodup_append] at hd'
    obtain ⟨⟨hal, har⟩, hdl, hdr, hlr⟩ := hd'
    refine ⟨Function.update_self .., (ihl (n := n) hdl).congr ?_, (ihr (n := lay n a.val.ptr l) hdr).congr ?_⟩
    · intro q hq
      rw [lay, Function.update_of_ne (by rintro rfl; exact hal hq)]
      exact lay_outside fun hr => hlr q hq q hr rfl
    · intro q hq
      rw [lay, Function.update_of_ne (by rintro rfl; exact har hq)]

lemma represents_lay (n : Ptr → RbNode) {t : RbTree} (hd : (ptrs t).Nodup) (hz : 0 ∉ ptrs t) :
    Represents n ⟨lay n 0 t, addr t⟩ t :=
  ⟨rfl, rep_lay hd, hd, hz, fun _ hq => lay_outside hq⟩

/-- The side of the hole of a path; at the root, where nothing is on a side, left. -/
def holeSide : RbPath → Side
  | [] => .left
  | f :: _ => f.side

lemma addr_cases (t : RbTree) : addr t = 0 ∨ addr t ∈ ptrs t := by
  cases t with
  | nil => exact .inl rfl
  | node a l r => exact .inr (addr_mem (by simp))

lemma parentAddr_cases (c : RbPath) : parentAddr c = 0 ∨ parentAddr c ∈ pathPtrs c := by
  cases c with
  | nil => exact .inl rfl
  | cons f c => exact .inr (by simp [parentAddr, pathPtrs])

lemma RepPath.left_iff {n : Ptr → RbNode} {root A : Ptr} {c : RbPath} (h : RepPath n root c A)
    (hA : A ≠ 0) (hc : A ∉ pathPtrs c) (hp : parentAddr c ≠ 0) :
    (n (parentAddr c)).left = A ↔ holeSide c = .left := by
  cases c with
  | nil => exact (hp rfl).elim
  | cons f c =>
    rw [parentAddr, h.1, holeSide]
    cases hs : f.side with
    | left => simp [record]
    | right =>
      have : addr f.sibling ≠ A := by
        intro he
        by_cases hn : f.sibling = nil
        · simp [hn] at he
          exact hA he.symm
        · exact hc (by simp [pathPtrs, ← he, addr_mem hn])
      simpa [record] using this

lemma RepPath.rehole {n n' : Ptr → RbNode} {root root' A B : Ptr} {c : RbPath} (h : RepPath n root c A)
    (hr : root' = if parentAddr c = 0 then B else root)
    (hp : parentAddr c ≠ 0 → n' (parentAddr c) = (n (parentAddr c)).setChild (holeSide c) B)
    (hn : ∀ q ∈ pathPtrs c, q ≠ parentAddr c → n' q = n q) (hd : (pathPtrs c).Nodup) (hz : 0 ∉ pathPtrs c) :
    RepPath n' root' c B := by
  cases c with
  | nil => exact hr
  | cons f c =>
    obtain ⟨hf, hs, hc⟩ := h
    simp only [pathPtrs, List.nodup_cons, List.mem_append, not_or, List.mem_cons] at hd hz
    rw [parentAddr, if_neg (Ne.symm hz.1)] at hr
    subst hr
    refine ⟨?_, hs.congr ?_, hc.congr ?_⟩
    · have := hp (Ne.symm hz.1)
      rwa [parentAddr, hf, holeSide, record_setChild] at this
    · intro q hq
      exact hn q (by simp [pathPtrs, hq]) (by rintro rfl; exact hd.1.1 hq)
    · intro q hq
      exact hn q (by simp [pathPtrs, hq]) (by rintro rfl; exact hd.1.2 hq)

namespace Represents

variable {rest : Ptr → RbNode} {s s' : RbState} {c c' : RbPath} {t t' : RbTree}

lemma focus (h : Represents rest s (plug c t)) :
    RepPath s.nodes s.root c (addr t) ∧ Rep s.nodes (parentAddr c) t :=
  (rep_plug c t).mp ⟨h.root, h.rep⟩

lemma nodup (h : Represents rest s (plug c t)) : (pathPtrs c ++ ptrs t).Nodup :=
  (ptrs_plug c t).nodup_iff.mp h.distinct

lemma ne_zero (h : Represents rest s (plug c t)) : 0 ∉ pathPtrs c ++ ptrs t :=
  fun hz => h.nonnull ((ptrs_plug c t).mem_iff.mpr hz)

lemma relink (h : Represents rest s (plug c t)) (hp : (pathPtrs c' ++ ptrs t').Perm (pathPtrs c ++ ptrs t))
    (hpath : RepPath s'.nodes s'.root c' (addr t')) (hrep : Rep s'.nodes (parentAddr c') t')
    (hn : ∀ q, q ∉ pathPtrs c ++ ptrs t → s'.nodes q = s.nodes q) : Represents rest s' (plug c' t') := by
  have hq : (ptrs (plug c' t')).Perm (ptrs (plug c t)) :=
    (ptrs_plug c' t').trans (hp.trans (ptrs_plug c t).symm)
  obtain ⟨hr, hs⟩ := (rep_plug c' t').mpr ⟨hpath, hrep⟩
  refine ⟨hr, hs, hq.nodup_iff.mpr h.distinct, fun hz => h.nonnull (hq.mem_iff.mp hz), ?_⟩
  intro q hq'
  rw [hq.mem_iff] at hq'
  rw [← h.rest q hq']
  exact hn q (fun hm => hq' ((ptrs_plug c t).mem_iff.mpr hm))

end Represents

end WordOS.Utils
