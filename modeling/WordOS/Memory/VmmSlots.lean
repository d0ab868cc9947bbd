import Mathlib.Data.Set.Card
import WordOS.Lib.Runs
import WordOS.Memory.VmmTree
import WordOS.Utils.RbStoreDelete

/-! The slots of a store page over runs of `make_node` and `delete_node`: none is used twice. -/

namespace WordOS.Memory

open Machine BinaryTree Utils Lib.Zipper Lib.ColoredTree Lib.Runs

/-- The nodes of the tree, by the links that lead to them. -/
inductive InTree (s : RbState) : Ptr → Prop
  | root : s.root ≠ 0 → InTree s s.root
  | child {p} (d : Side) : InTree s p → (s.nodes p).child d ≠ 0 → InTree s ((s.nodes p).child d)

inductive StoreAct
  | make (base size id : ℕ)
  | delete (p : Ptr)
  deriving DecidableEq

def StoreAct.isMake : StoreAct → Bool
  | .make .. => true
  | .delete _ => false

/-- Where the slots of a store page start, after the struct and the room for another one. -/
def firstSlot (page : ℕ) : ℕ := page + 2 * SIZEOF_VMM

inductive StoreStep (page : ℕ) : RbState → StoreAct → RbState → Prop
  | make {s t : RbState} {p fuel base size id} :
      makeNode fuel s (firstSlot page) base size id = .ok (p, t) → StoreStep page s (.make base size id) t
  | delete {s t : RbState} {p fuel} : InTree s p → deleteNode fuel s p = .ok t → StoreStep page s (.delete p) t

/-- `alloc_node_obj` returns a node in the store page that is not in the tree. -/
def Served (page : ℕ) (s : RbState) : Prop :=
  ∃ (fuel p : ℕ) (t : RbState), allocNodeObj fuel s (firstSlot page) = .ok (p, t) ∧ (page ≤ p ∧ p + 32 ≤ page + 4096) ∧ ¬ InTree s p

def ServedStep (page : ℕ) (s : RbState) (a : StoreAct) (t : RbState) : Prop :=
  StoreStep page s a t ∧ (a.isMake → Served page s)

def SlotBefore (page k p : ℕ) : Prop := ∃ i : ℕ, i < k ∧ p = firstSlot page + 32 * i

/-- `k` nodes have been made. -/
structure Stored (page : ℕ) (k : ℕ) (s : RbState) : Prop where
  slots : Slots s.nodes (firstSlot page) k
  closed : Closed (SlotBefore page k) s

variable {page p k fuel base size id : ℕ} {s s₀ t : RbState} {a : StoreAct} {acts : List StoreAct}

lemma InTree.slotBefore {U : Ptr → Prop} (h : InTree s p) (hc : Closed U s) : U p := by
  induction h with
  | root hr => exact hc.root.resolve_left hr
  | child d _ hd ih => exact ((hc.node _ ih).child d).resolve_left hd

lemma allocNodeObj_ge {start : ℕ} (h : allocNodeObj fuel s start = .ok (p, t)) : ∃ i : ℕ, p = start + 32 * i ∧ ¬ (s.nodes p).Taken := by
  induction fuel generalizing start with
  | zero => cases h
  | succ fuel ih =>
    obtain ⟨n, hn, h⟩ := bind_eq_ok.mp h
    split_ifs at h with ht
    · obtain ⟨i, rfl, hi⟩ := ih h
      exact ⟨i + 1, by omega, hi⟩
    · obtain ⟨rfl, -⟩ := Prod.mk.inj (Except.ok.inj h)
      rw [RbState.load] at hn
      split_ifs at hn
      obtain rfl := Except.ok.inj hn
      exact ⟨0, rfl, ht⟩

lemma slotBefore_slot {i : ℕ} : SlotBefore page k (firstSlot page + 32 * i) ↔ i < k := by
  constructor
  · rintro ⟨j, hj, he⟩
    omega
  · exact fun hi => ⟨i, hi, rfl⟩

lemma SlotBefore.succ (h : SlotBefore page k p) : SlotBefore page (k + 1) p := by
  obtain ⟨i, hi, rfl⟩ := h
  exact ⟨i, hi.trans_le k.le_succ, rfl⟩

lemma slots_of_stays (h : Stays (SlotBefore page k) s t) (hs : Slots s.nodes (firstSlot page) k) :
    Slots t.nodes (firstSlot page) k := by
  refine ⟨hs.ne_zero, fun i hi => (h.closed.node _ ⟨i, hi, rfl⟩).taken, fun i hi hl => ?_⟩
  rw [h.frame _ (slotBefore_slot.not.mpr (by omega))]
  exact hs.blank i hi hl

namespace Stored

lemma served_iff (h : Stored page k s) (hk : k ≤ SLOTS) : Served page s ↔ k < SLOTS := by
  constructor
  · rintro ⟨fuel, p, t, ha, ⟨-, hp⟩, -⟩
    by_contra hlt
    obtain ⟨i, rfl, hi⟩ := allocNodeObj_ge ha
    have hik : ¬ i < k := fun hik => hi (h.slots.taken i hik)
    have h125 : SLOTS = 125 := rfl
    have hpage : firstSlot page = page + 96 := rfl
    omega
  · intro hlt
    refine ⟨k + 1, _, _, h.slots.allocNodeObj hlt (.inl k.lt_succ_self), ?_, fun ht => ?_⟩
    · have h125 : SLOTS = 125 := rfl
      have hpage : firstSlot page = page + 96 := rfl
      omega
    · exact absurd (slotBefore_slot.mp (ht.slotBefore h.closed)) (lt_irrefl k)

lemma withNode {c : Color} (h : Stored page k s) (hk : k < SLOTS) :
    Stored page (k + 1) (withNode s c (newEntry (firstSlot page) k base size id)) := by
  have hb := h.slots.blank k le_rfl hk
  have hself : (Memory.withNode s c (newEntry (firstSlot page) k base size id)).nodes (firstSlot page + 32 * k) =
      ⟨id, base, size, 3, c, 0, 0, 0⟩ := withNode_self
  have htaken : ((Memory.withNode s c (newEntry (firstSlot page) k base size id)).nodes (firstSlot page + 32 * k)).Taken := by
    rw [hself]
    simp [RbNode.Taken]
  have hmono : ∀ q, Ref (SlotBefore page k) q → Ref (SlotBefore page (k + 1)) q := fun q hq => hq.imp_right SlotBefore.succ
  refine ⟨h.slots.succ (fun q hq => withNode_taken hb hq) htaken (fun i hi _ => withNode_nodes ?_), hmono _ h.closed.root, ?_⟩
  · change firstSlot page + 32 * i ≠ firstSlot page + 32 * k
    omega
  · rintro p ⟨i, hi, rfl⟩
    rcases Nat.lt_succ_iff_lt_or_eq.mp hi with hi | rfl
    · rw [withNode_nodes (show firstSlot page + 32 * i ≠ firstSlot page + 32 * k by omega)]
      have hw := h.closed.node _ (slotBefore_slot.mpr hi)
      exact ⟨hmono _ hw.left, hmono _ hw.right, hmono _ hw.parent, hw.taken⟩
    · rw [hself]
      rw [hself] at htaken
      exact ⟨.inl rfl, .inl rfl, .inl rfl, htaken⟩

lemma of_stays (h : Stored page k s) (hs : Stays (SlotBefore page k) s t) : Stored page k t := ⟨slots_of_stays hs h.slots, hs.closed⟩

lemma makeNode (h : Stored page k s) (hk : k < SLOTS) (hm : makeNode fuel s (firstSlot page) base size id = .ok (p, t)) :
    Stored page (k + 1) t := by
  have hne : Utils.makeNode fuel s (firstSlot page) base size id ≠ .error .fuel := by simp [hm]
  rw [makeNode_eq h.slots hk (.inr hne)] at hm
  have hslot : SlotBefore page (k + 1) (firstSlot page + 32 * k) := slotBefore_slot.mpr k.lt_succ_self
  split_ifs at hm
  · obtain ⟨-, rfl⟩ := Prod.mk.inj (Except.ok.inj hm)
    have hw : Stored page (k + 1) (Memory.withNode s .black (newEntry (firstSlot page) k base size id)) := h.withNode hk
    exact hw.of_stays (hw.closed.setRoot (.inr hslot))
  · obtain ⟨u, hu, hm⟩ := bind_eq_ok.mp hm
    obtain ⟨-, rfl⟩ := Prod.mk.inj (Except.ok.inj hm)
    have hw : Stored page (k + 1) (Memory.withNode s .red (newEntry (firstSlot page) k base size id)) := h.withNode hk
    exact hw.of_stays (hw.closed.insertNode (.inr hslot) hu)

lemma step (h : Stored page k s) (ha : StoreStep page s a t) (hk : a.isMake → k < SLOTS) :
    Stored page (k + [a].countP StoreAct.isMake) t := by
  cases ha with
  | make hm => exact h.makeNode (hk rfl) hm
  | delete hp hd => exact h.of_stays (h.closed.deleteNode (.inr (hp.slotBefore h.closed)) hd)

lemma run (h : Stored page 0 s₀) (hr : Run (StoreStep page) s₀ acts s) (hk : acts.countP StoreAct.isMake ≤ SLOTS) :
    Stored page (acts.countP StoreAct.isMake) s := by
  induction hr with
  | nil => exact h
  | @snoc t u as a hr ha ih =>
    rw [List.countP_append] at hk ⊢
    apply (ih (by omega)).step ha
    intro hm
    have h1 : [a].countP StoreAct.isMake = 1 := by simp [hm]
    omega

lemma blank (hr : s₀.root = 0) (hs : Slots s₀.nodes (firstSlot page) 0) : Stored page 0 s₀ := by
  refine ⟨hs, .inl hr, ?_⟩
  rintro p ⟨i, hi, -⟩
  exact absurd hi (Nat.not_lt_zero i)

end Stored

lemma countP_of_served (h : Stored page 0 s₀) (hr : Run (ServedStep page) s₀ acts s) :
    acts.countP StoreAct.isMake ≤ SLOTS := by
  induction hr with
  | nil => exact Nat.zero_le _
  | @snoc t u as a hr ha ih =>
    have hst := h.run (hr.mono fun _ _ _ h => h.1) ih
    rw [List.countP_append]
    cases hm : a.isMake
    · simpa [hm] using ih
    · have := (hst.served_iff ih).mp (ha.2 hm)
      simp only [List.countP_cons, hm, List.countP_nil, if_true]
      omega

lemma run_served_of_lt (h : Stored page 0 s₀) (hr : Run (StoreStep page) s₀ acts s) (hk : acts.countP StoreAct.isMake ≤ SLOTS) :
    Run (ServedStep page) s₀ acts s := by
  induction hr with
  | nil => exact .nil _
  | @snoc t u as a hr ha ih =>
    rw [List.countP_append] at hk
    have hle : as.countP StoreAct.isMake ≤ SLOTS := by omega
    refine .snoc (ih hle) ⟨ha, fun hm => ?_⟩
    have h1 : [a].countP StoreAct.isMake = 1 := by simp [hm]
    exact ((h.run hr hle).served_iff hle).mpr (by omega)

/-- Every node of a run and the one a next call would get are in the store page and not in the tree if and only if
`make_node` has been called fewer than 125 times. -/
theorem run_served_iff (hroot : s₀.root = 0) (hs : Slots s₀.nodes (firstSlot page) 0) (hr : Run (StoreStep page) s₀ acts s) :
    Run (ServedStep page) s₀ acts s ∧ Served page s ↔ acts.countP StoreAct.isMake < SLOTS := by
  have h := Stored.blank hroot hs
  constructor
  · rintro ⟨hserved, hlast⟩
    have hle := countP_of_served h hserved
    exact ((h.run hr hle).served_iff hle).mp hlast
  · intro hlt
    exact ⟨run_served_of_lt h hr hlt.le, ((h.run hr hlt.le).served_iff hlt.le).mpr hlt⟩

def blankStore : RbState := ⟨fun _ => blankNode, 0⟩

lemma blankStore_slots {start : ℕ} (h : start ≠ 0) : Slots blankStore.nodes start 0 :=
  ⟨h, fun i hi => absurd hi (Nat.not_lt_zero i), fun _ _ _ => rfl⟩

lemma makeNode_blankStore : ∃ t, makeNode 1 blankStore (firstSlot 4096) 0 1 0 = .ok (firstSlot 4096, t) ∧
    Represents t.nodes t (node ⟨.black, newEntry (firstSlot 4096) 0 0 1 0⟩ nil nil) ∧ Slots t.nodes (firstSlot 4096) 1 := by
  have hs : Slots blankStore.nodes (firstSlot 4096) 0 := blankStore_slots (by decide)
  obtain ⟨t, ht, hr, hst, -⟩ := makeNode_root rfl hs (by decide)
    (show _ ∨ makeNode 1 blankStore (firstSlot 4096) 0 1 0 ≠ _ from .inl Nat.zero_lt_one)
  exact ⟨t, ht, hr, hst⟩

theorem run_served_iff_one : ∃ t, Run (StoreStep 4096) blankStore [.make 0 1 0] t ∧
    (Run (ServedStep 4096) blankStore [.make 0 1 0] t ∧ Served 4096 t ↔ 1 < SLOTS) := by
  have hs : Slots blankStore.nodes (firstSlot 4096) 0 := blankStore_slots (by decide)
  obtain ⟨t, ht, -⟩ := makeNode_blankStore
  have hr : Run (StoreStep 4096) blankStore [.make 0 1 0] t := .single (.make ht)
  exact ⟨t, hr, run_served_iff rfl hs hr⟩

/-- A step after which the tree has no more nodes than the store page has slots. -/
def SmallStep (page : ℕ) (s : RbState) (a : StoreAct) (t : RbState) : Prop :=
  StoreStep page s a t ∧ {p | InTree t p}.encard ≤ SLOTS

lemma InTree.mem_ptrs {rest : Ptr → RbNode} {u : RbTree} (h : InTree s p) (hr : Represents rest s u) : p ∈ ptrs u := by
  induction h with
  | root h0 =>
    rw [hr.root] at h0 ⊢
    exact (addr_cases u).resolve_left h0
  | @child p d _ hd ih =>
    obtain ⟨e, he, rfl⟩ := List.mem_map.mp ih
    obtain ⟨b, hb, rfl⟩ := List.mem_map.mp he
    obtain ⟨c, l, r, rfl⟩ := exists_path hb
    rw [hr.nodes_eq (d := .left)] at hd ⊢
    refine (ptrs_plug ..).mem_iff.mpr (List.mem_append_right _ (mem_ptrs_node.mpr (.inr ?_)))
    cases d
    · exact .inl ((addr_cases l).resolve_left hd)
    · exact .inr ((addr_cases r).resolve_left hd)

lemma encard_tree_le {rest : Ptr → RbNode} {u : RbTree} (hr : Represents rest s u) (hl : (ptrs u).length ≤ SLOTS) :
    {p | InTree s p}.encard ≤ SLOTS := by
  have hsub : {p | InTree s p} ⊆ ((ptrs u).toFinset : Set ℕ) := fun p hp => by
    simpa using hp.mem_ptrs hr
  refine (Set.encard_le_encard hsub).trans ?_
  rw [Set.encard_coe_eq_coe_finsetCard]
  exact_mod_cast (List.toFinset_card_le _).trans hl

/-- Of `k` nodes that were made a single one is left in the tree. -/
structure Lone (page k : ℕ) (s : RbState) : Prop where
  rep : ∃ e : Entry, Represents s.nodes s (node ⟨.black, e⟩ nil nil) ∧ e.size = 1 ∧ e.flags &&& 1 ≠ 0
  slots : Slots s.nodes (firstSlot page) k

lemma Lone.churn (h : Lone page k s) (hk : k < SLOTS) :
    ∃ t p u, SmallStep page s (.make 0 2 0) t ∧ SmallStep page t (.delete p) u ∧ Lone page (k + 1) u := by
  obtain ⟨⟨e, hr, he, hfl⟩, hs⟩ := h
  have hta : AllTaken (node ⟨.black, e⟩ nil nil) := by simpa [AllTaken] using hfl
  set n := newEntry (firstSlot page) k 0 2 0 with hn
  have hfix : insertFix (descend 2 [] (paint .black (node ⟨.black, e⟩ nil nil))) (node ⟨.red, n⟩ nil nil) =
      some (node ⟨.black, e⟩ nil (node ⟨.red, n⟩ nil nil)) := by
    simp [descend, insertFix, he, paint, Cell.paint]
    rfl
  have hm := makeNode_insert hr (by simp) hta hs hk
    (show _ ∨ makeNode (k + 2) s (firstSlot page) 0 2 0 ≠ _ from .inl (by simp [ptrs]; omega))
  rw [← hn, hfix] at hm
  obtain ⟨t, ht, hrt, htt, hst, -⟩ := hm
  have hrt' : Represents t.nodes t (plug [⟨.right, ⟨.black, e⟩, nil⟩] (node ⟨.red, n⟩ nil nil)) := hrt
  have hd := hrt'.deleteNode_leaf (by simp [hn, newEntry, he]) (show _ ∨ deleteNode 2 t n.ptr ≠ _ from .inl (by simp [climb]))
  have hred : deleteFix [⟨.right, ⟨.black, e⟩, nil⟩] .red = some (.red, [⟨.right, ⟨.black, e⟩, nil⟩]) := by
    rw [deleteFix]
    rfl
  rw [hred] at hd
  obtain ⟨u, hu, hru, hother, htaken⟩ := hd
  replace hru : Represents u.nodes u (node ⟨.black, e⟩ nil nil) := hru
  have htree : InTree t n.ptr := by
    have hroot : t.root = e.ptr := hrt.root
    have h0 : e.ptr ≠ 0 := fun h0 => hr.nonnull (by simp [ptrs, h0])
    have hright : (t.nodes e.ptr).child .right = n.ptr := by
      rw [hrt.nodes_eq (c := []) (d := .right) (a := ⟨.black, e⟩) (x := node ⟨.red, n⟩ nil nil) (y := nil)]
      rfl
    rw [← hright]
    refine .child .right (hroot ▸ .root (hroot ▸ h0)) ?_
    rw [hright]
    exact hrt'.ptr_ne_zero (d := .left) (a := ⟨.red, n⟩)
  refine ⟨t, n.ptr, u, ⟨.make ht, encard_tree_le hrt (by simp [ptrs, SLOTS])⟩,
    ⟨.delete htree hu, encard_tree_le hru (by simp [ptrs, SLOTS])⟩, ⟨e, hru, he, hfl⟩, hst.ne_zero, fun i hi => ?_, fun i hi hl => ?_⟩
  · by_cases hm : firstSlot page + 32 * i ∈ ptrs (plug [⟨.right, ⟨.black, e⟩, nil⟩] (node ⟨.red, n⟩ nil nil))
    · exact htaken (hrt'.taken_iff.mpr htt) _ hm
    · rw [hother _ hm]
      exact hst.taken i hi
  · rw [hother _ (htt.not_mem hrt (hst.blank i hi hl))]
    exact hst.blank i hi hl

lemma exists_lone (hk : k < SLOTS) : ∃ acts s, Run (SmallStep 4096) blankStore acts s ∧
    acts.countP StoreAct.isMake = k + 1 ∧ Lone 4096 (k + 1) s := by
  induction k with
  | zero =>
    obtain ⟨t, ht, hr, hst⟩ := makeNode_blankStore
    exact ⟨[.make 0 1 0], t, .single ⟨.make ht, encard_tree_le hr (by simp [ptrs, SLOTS])⟩, rfl, ⟨_, hr, rfl, by decide⟩, hst⟩
  | succ k ih =>
    obtain ⟨acts, s, hr, hc, hl⟩ := ih (by omega)
    obtain ⟨t, p, u, ht, hu, hlu⟩ := hl.churn hk
    refine ⟨acts ++ [.make 0 2 0] ++ [.delete p], u, (hr.snoc ht).snoc hu, ?_, hlu⟩
    rw [List.countP_append, List.countP_append, hc]
    rfl

/-- With one node in the tree all the time and at most one more, the store page is used up after 125 nodes. -/
theorem run_served_iff_churn : ¬ ∀ page s₀ acts s, s₀.root = 0 → Slots s₀.nodes (firstSlot page) 0 →
    Run (SmallStep page) s₀ acts s → Run (ServedStep page) s₀ acts s ∧ Served page s := by
  intro hall
  obtain ⟨acts, s, hr, hc, -⟩ := exists_lone (k := 124) (by decide)
  have hs : Slots blankStore.nodes (firstSlot 4096) 0 := blankStore_slots (by decide)
  have hst := (Stored.blank rfl hs).run (hr.mono fun _ _ _ h => h.1) hc.le
  rw [hc] at hst
  exact lt_irrefl SLOTS ((hst.served_iff le_rfl).mp (hall 4096 blankStore acts s rfl hs hr).2)

end WordOS.Memory
