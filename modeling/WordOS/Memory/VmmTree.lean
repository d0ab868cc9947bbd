import WordOS.Memory.Vmm
import WordOS.Utils.RbDeleteRanges
import WordOS.Utils.RbInsertBalance

/-! New nodes from a store page, and the search of `vmm_page_alloc`, on represented trees. -/

namespace WordOS.Memory

open Machine BinaryTree Utils Lib.Zipper Lib.ColoredTree

namespace VmmState

variable (s : VmmState) (v w : ℕ) (t : RbState)

@[simp] lemma tree_nodes : (s.tree v).nodes = s.nodes := rfl
@[simp] lemma tree_root : (s.tree v).root = (s.vmms v).root := rfl
@[simp] lemma setTree_nodes : (s.setTree v t).nodes = t.nodes := rfl
@[simp] lemma setTree_kernelVmm : (s.setTree v t).kernelVmm = s.kernelVmm := rfl
@[simp] lemma setTree_paging : (s.setTree v t).paging = s.paging := rfl

@[simp] lemma setTree_root_self : ((s.setTree v t).vmms v).root = t.root := by
  simp [setTree]

@[simp] lemma setTree_tree : s.setTree v (s.tree v) = s := by
  simp [setTree, tree]

lemma setTree_vmms_ne {s : VmmState} {v w : ℕ} {t : RbState} (h : w ≠ v) : (s.setTree v t).vmms w = s.vmms w :=
  Function.update_of_ne h ..

@[simp] lemma slotsOf_setTree : slotsOf (s.setTree v t) w = slotsOf s w := by
  by_cases h : w = v
  · subst h
    simp [slotsOf, setTree]
  · rw [slotsOf, setTree_vmms_ne h, slotsOf]

@[simp] lemma setTree_rootPd : ((s.setTree v t).vmms w).rootPd = (s.vmms w).rootPd := by
  by_cases h : w = v
  · subst h
    simp [setTree]
  · rw [setTree_vmms_ne h]

@[simp] lemma setTree_low : ((s.setTree v t).vmms w).low = (s.vmms w).low := by
  by_cases h : w = v
  · subst h
    simp [setTree]
  · rw [setTree_vmms_ne h]

end VmmState

/-- The slots of 32 bytes in a page, less the room before the first one. -/
def SLOTS : ℕ := 125

/-- Of the slots from `start` on the first `k` are taken; the rest of the page is as `memset` left it. -/
structure Slots (n : Ptr → RbNode) (start k : ℕ) : Prop where
  ne_zero : start ≠ 0
  taken : ∀ i < k, (n (start + 32 * i)).Taken
  blank : ∀ i, k ≤ i → i < SLOTS → n (start + 32 * i) = blankNode

def AllTaken (t : RbTree) : Prop := ∀ e ∈ vals t, e.flags &&& 1 ≠ 0

variable {n n' rest : Ptr → RbNode} {s : RbState} {t : RbTree} {start k fuel base size id length : ℕ}

lemma not_taken_blank : ¬ blankNode.Taken := by simp [RbNode.Taken, blankNode]

/-- The slot is `start + 32 * j` already; `k - j` more are passed over. -/
lemma Slots.allocNodeObj_from (h : Slots s.nodes start k) (hk : k < SLOTS) {j : ℕ} (hj : j ≤ k)
    (hf : k - j < fuel ∨ allocNodeObj fuel s (start + 32 * j) ≠ .error .fuel) :
    allocNodeObj fuel s (start + 32 * j) =
      .ok (start + 32 * k, s.put (start + 32 * k) fun n => { n with flags := 3 }) := by
  have hz : start + 32 * j ≠ 0 := by
    have := h.ne_zero
    omega
  induction fuel generalizing j with
  | zero => simp [allocNodeObj] at hf
  | succ fuel ih =>
    have hl : s.load (start + 32 * j) = .ok (s.nodes (start + 32 * j)) := by rw [RbState.load, if_neg hz]
    simp only [allocNodeObj, hl, ok_bind] at hf ⊢
    rcases Nat.lt_or_eq_of_le hj with hlt | rfl
    · have ht : (s.nodes (start + 32 * j)).flags &&& 1 ≠ 0 := h.taken j hlt
      rw [if_pos ht] at hf ⊢
      exact ih hlt (hf.imp_left (by omega)) (by omega)
    · have hb : ¬ (s.nodes (start + 32 * j)).flags &&& 1 ≠ 0 := by
        rw [h.blank j le_rfl hk]
        exact not_taken_blank
      rw [if_neg hb]
      rfl

lemma Slots.allocNodeObj (h : Slots s.nodes start k) (hk : k < SLOTS)
    (hf : k < fuel ∨ allocNodeObj fuel s start ≠ .error .fuel) :
    allocNodeObj fuel s start = .ok (start + 32 * k, s.put (start + 32 * k) fun n => { n with flags := 3 }) :=
  h.allocNodeObj_from hk (Nat.zero_le k) hf

lemma Slots.succ (h : Slots n start k) (ht : ∀ q, (n q).Taken → (n' q).Taken) (hk : (n' (start + 32 * k)).Taken)
    (ho : ∀ i, k < i → i < SLOTS → n' (start + 32 * i) = n (start + 32 * i)) : Slots n' start (k + 1) := by
  refine ⟨h.ne_zero, fun i hi => ?_, fun i hi hs => ?_⟩
  · rcases Nat.lt_succ_iff_lt_or_eq.mp hi with hi | rfl
    · exact ht _ (h.taken i hi)
    · exact hk
  · rw [ho i hi hs]
    exact h.blank i (by omega) hs

lemma AllTaken.not_mem (h : AllTaken t) (hr : Represents rest s t) {q : Ptr} (hq : s.nodes q = blankNode) : q ∉ ptrs t := by
  intro hm
  have := hr.taken_iff.mpr h q hm
  rw [hq] at this
  exact not_taken_blank this

/-- What `make_node` makes of the slot it takes. -/
def newEntry (start k base size id : ℕ) : Entry := ⟨start + 32 * k, id, base, size, 3⟩

def withNode (s : RbState) (color : Color) (e : Entry) : RbState :=
  { s with nodes := Function.update s.nodes e.ptr ⟨e.id, e.base, e.size, e.flags, color, 0, 0, 0⟩ }

lemma makeNode_eq (hs : Slots s.nodes start k) (hk : k < SLOTS)
    (hf : k < fuel ∨ makeNode fuel s start base size id ≠ .error .fuel) :
    makeNode fuel s start base size id =
      if s.root = 0 then
        .ok (start + 32 * k, { withNode s .black (newEntry start k base size id) with root := start + 32 * k })
      else do
        let s ← insertNode fuel (withNode s .red (newEntry start k base size id)) (start + 32 * k)
        return (start + 32 * k, s) := by
  have hz : start + 32 * k ≠ 0 := by
    have := hs.ne_zero
    omega
  have ha := hs.allocNodeObj hk (hf.imp_right (mt fun he => by rw [makeNode, he, error_bind]))
  have hb := hs.blank k le_rfl hk
  have hn : (s.put (start + 32 * k) fun n => { n with flags := 3 }).put (start + 32 * k)
      (fun n => { n with size := size, id := id, base := base }) = withNode s .red (newEntry start k base size id) := by
    simp [RbState.put, withNode, newEntry, hb, blankNode]
  simp only [makeNode, ha, ok_bind, RbState.modify, if_neg hz, hn]
  split_ifs with h₁ h₂ h₂
  · simp [RbState.put, withNode, newEntry]
  · exact (h₂ h₁).elim
  · exact (h₁ h₂).elim
  · rfl

lemma withNode_nodes {c : Color} {e : Entry} {q : Ptr} (hq : q ≠ e.ptr) : (withNode s c e).nodes q = s.nodes q :=
  Function.update_of_ne hq ..

lemma withNode_self {c : Color} {e : Entry} :
    (withNode s c e).nodes e.ptr = ⟨e.id, e.base, e.size, e.flags, c, 0, 0, 0⟩ :=
  Function.update_self ..

lemma withNode_taken {c : Color} (hb : s.nodes (start + 32 * k) = blankNode) {q : Ptr} (hq : (s.nodes q).Taken) :
    ((withNode s c (newEntry start k base size id)).nodes q).Taken := by
  by_cases hp : q = start + 32 * k
  · rw [hp, hb] at hq
    exact (not_taken_blank hq).elim
  · rwa [withNode_nodes hp]

lemma makeNode_root (hr : s.root = 0) (hs : Slots s.nodes start k) (hk : k < SLOTS)
    (hf : k < fuel ∨ makeNode fuel s start base size id ≠ .error .fuel) :
    ∃ s', makeNode fuel s start base size id = .ok (start + 32 * k, s') ∧
      Represents s'.nodes s' (node ⟨.black, newEntry start k base size id⟩ nil nil) ∧ Slots s'.nodes start (k + 1) ∧
      ∀ q, q ≠ start + 32 * k → s'.nodes q = s.nodes q := by
  have hz : start + 32 * k ≠ 0 := by
    have := hs.ne_zero
    omega
  refine ⟨{ withNode s .black (newEntry start k base size id) with root := start + 32 * k },
    by rw [makeNode_eq hs hk hf, if_pos hr], ⟨rfl, ⟨Function.update_self .., trivial, trivial⟩, ?_, ?_,
    fun _ _ => rfl⟩, hs.succ (fun q hq => ?_) ?_ (fun i hi _ => withNode_nodes ?_), fun q hq => withNode_nodes hq⟩
  · simp [ptrs]
  · simpa [ptrs, newEntry] using hz.symm
  · exact withNode_taken (hs.blank k le_rfl hk) hq
  · change ((withNode s .black (newEntry start k base size id)).nodes (newEntry start k base size id).ptr).Taken
    rw [withNode_self]
    simp [RbNode.Taken, newEntry]
  · change start + 32 * i ≠ start + 32 * k
    omega

lemma makeNode_insert (h : Represents rest s t) (ht : t ≠ nil) (hta : AllTaken t) (hs : Slots s.nodes start k)
    (hk : k < SLOTS) (hf : (ptrs t).length + k < fuel ∨ makeNode fuel s start base size id ≠ .error .fuel) :
    match insertFix (descend size [] (paint .black t)) (node ⟨.red, newEntry start k base size id⟩ nil nil) with
    | some t' => ∃ s', makeNode fuel s start base size id = .ok (start + 32 * k, s') ∧ Represents s'.nodes s' t' ∧
        AllTaken t' ∧ Slots s'.nodes start (k + 1) ∧ ∀ q, q ∉ ptrs t → q ≠ start + 32 * k → s'.nodes q = s.nodes q
    | none => makeNode fuel s start base size id = .error .fault := by
  have hr : s.root ≠ 0 := h.root ▸ h.addr_ne_zero (c := []) ht
  have hz : start + 32 * k ≠ 0 := by
    have := hs.ne_zero
    omega
  have hq := hta.not_mem h (hs.blank k le_rfl hk)
  set e := newEntry start k base size id with he
  have hwt : ∀ q ∈ ptrs t, (withNode s .red e).nodes q = s.nodes q := fun q hm =>
    withNode_nodes (by rintro rfl; exact hq hm)
  have hw : Represents (withNode s .red e).nodes (withNode s .red e) t := h.outside rfl hwt
  have hp : (withNode s .red e).nodes (start + 32 * k) = ⟨id, base, size, 3, .red, 0, 0, 0⟩ := Function.update_self ..
  have heq : makeNode fuel s start base size id = _ := makeNode_eq hs hk (hf.imp_left (by omega))
  rw [if_neg hr, ← he] at heq
  rw [heq] at hf ⊢
  have hi := hw.insertNode ht hq hz (by rw [hp]) (by rw [hp])
    (hf.imp (show _ → _ < fuel by omega) (mt fun he => by rw [he, error_bind]))
  have hentry : ((withNode s .red e).nodes (start + 32 * k)).entry (start + 32 * k) = e := by
    rw [hp]
    rfl
  rw [hentry, hp] at hi
  generalize hins : insertFix (descend size [] (paint .black t)) (node ⟨.red, e⟩ nil nil) = o at *
  cases o with
  | none =>
    have hi : Utils.insertNode fuel (withNode s .red e) (start + 32 * k) = .error .fault := hi
    simp only [hi, error_bind]
  | some t' =>
    obtain ⟨s', hs', h'⟩ := hi
    have hv : (vals t').Perm (e :: vals t) := by
      have hg := vals_plug (descend size [] (paint .black t)) nil
      rw [plug_descend, plug_nil, vals_paint, vals_nil, List.append_nil] at hg
      rw [insertFix_vals hins, vals_plug, hg]
      simp
    have hta' : AllTaken t' := by
      intro e' he'
      rcases List.mem_cons.mp (hv.mem_iff.mp he') with rfl | he'
      · simp [he, newEntry]
      · exact hta e' he'
    have hmem : ∀ q, q ∈ ptrs t' ↔ q = start + 32 * k ∨ q ∈ ptrs t := fun q => by
      rw [ptrs, (hv.map Entry.ptr).mem_iff, List.map_cons, List.mem_cons]
      rfl
    have hout : ∀ q, q ∉ ptrs t → q ≠ start + 32 * k → s'.nodes q = s.nodes q := fun q hq hqp => by
      rw [h'.rest q (by rw [hmem]; tauto)]
      exact withNode_nodes hqp
    have hin : ∀ q ∈ ptrs t', (s'.nodes q).Taken := h'.taken_iff.mpr hta'
    refine ⟨s', by simp only [hs', ok_bind, pure_eq], h'.outside rfl fun _ _ => rfl, hta', ?_, hout⟩
    refine hs.succ (fun q hqt => ?_) (hin _ ((hmem _).mpr (.inl rfl))) fun i hi hs' => ?_
    · by_cases hqm : q ∈ ptrs t'
      · exact hin q hqm
      · rw [hmem, not_or] at hqm
        rwa [hout q hqm.2 hqm.1]
    · have hne : start + 32 * i ≠ start + 32 * k := by omega
      exact hout _ (hta.not_mem h (hs.blank i hi.le hs')) hne

/-- The search of `vmm_page_alloc`: the node found, as the path to it and the tree from it on. -/
def fit (length : ℕ) : RbPath → RbTree → Option (RbPath × RbTree) → Option (RbPath × RbTree)
  | _, nil, best => best
  | c, node a l r, best =>
    if a.val.size = length then some (c, node a l r)
    else if a.val.size ≤ length then fit length (⟨.right, a, l⟩ :: c) r best
    else fit length (⟨.left, a, r⟩ :: c) l (some (c, node a l r))

def fitAddr : Option (RbPath × RbTree) → Ptr
  | none => 0
  | some q => addr q.2

lemma bestFit_ok {c : RbPath} {best : Option (RbPath × RbTree)} (h : Represents rest s (plug c t))
    (hf : (ptrs t).length < fuel ∨ bestFit fuel s length (addr t) (fitAddr best) ≠ .error .fuel) :
    bestFit fuel s length (addr t) (fitAddr best) = .ok (fitAddr (fit length c t best)) := by
  induction fuel generalizing c t best with
  | zero => simp [bestFit] at hf
  | succ fuel ih =>
    cases t with
    | nil => simp [bestFit, fit]
    | node a l r =>
      have hl := h.load (d := .left) (a := a)
      have hz := h.ptr_ne_zero (d := .left) (a := a)
      have hn := length_ptrs_node a l r
      simp only [bestFit, addr_node, if_neg hz, hl, ok_bind, record_size, fit] at hf ⊢
      split_ifs at hf ⊢ with he hle
      · rfl
      · exact ih (c := ⟨.right, a, l⟩ :: c) (t := r) h (hf.imp_left (by omega))
      · have hbest : a.val.ptr = fitAddr (some (c, node a l r)) := rfl
        rw [hbest] at hf ⊢
        exact ih (c := ⟨.left, a, r⟩ :: c) (t := l) h (hf.imp_left (by omega))

lemma fit_mem {c c' : RbPath} {t' : RbTree} {best : Option (RbPath × RbTree)} (h : fit length c t best = some (c', t')) :
    best = some (c', t') ∨ plug c' t' = plug c t ∧ ∃ a l r, t' = node a l r ∧ length ≤ a.val.size := by
  induction t generalizing c best with
  | nil => exact .inl h
  | node a l r ihl ihr =>
    rw [fit] at h
    split_ifs at h with he hle
    · obtain ⟨rfl, rfl⟩ := Prod.mk.injEq .. ▸ Option.some.inj h
      exact .inr ⟨rfl, a, l, r, rfl, he.ge⟩
    · exact ihr h
    · rcases ihl h with hb | hb
      · obtain ⟨rfl, rfl⟩ := Prod.mk.injEq .. ▸ Option.some.inj hb
        exact .inr ⟨rfl, a, l, r, rfl, by omega⟩
      · exact .inr hb

end WordOS.Memory
