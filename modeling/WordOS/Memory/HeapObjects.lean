import WordOS.Lib.Objects
import WordOS.Memory.HeapRuns

/-! The heap as a store of objects: what clients wrote into their blocks is there when they read it. -/

namespace WordOS.Memory.HeapRuns

open Machine Lib Lib.Bytes Lib.Runs

/-- What a call does to the objects: `kalloc` makes one of at least the rounded size. -/
inductive Mirrors : Op → Objects.Op (BitVec 8) → Prop
  | kalloc {size p n} : alignSize size ≤ n → Mirrors (.kalloc size) (.make p n)
  | kfree {p} : Mirrors (.kfree p) (.drop p)
  | write {p i v} : Mirrors (.write (p + i) v) (.write p i v)

/-- The objects are the live blocks of a whole heap, which holds them. -/
structure Stores (s : Clients) (o : Objects.Store (BitVec 8)) : Prop where
  whole : ∃ bs, Whole s bs
  live : ∀ p, p ∈ s.live ↔ ∃ x, o p = some x
  size : ∀ p x, o p = some x → x.size = (headerOf s p).size
  held : Objects.Held s.heap.mem o

variable {s t : Clients} {o : Objects.Store (BitVec 8)} {op : Op} {p size fuel : ℕ} {u : Heap}

lemma kept_payload {m m' : Mem} {q n i : ℕ} (h : Kept m m' (q - SIZEOF_MEM_HEADER)) (hq : q - SIZEOF_MEM_HEADER + SIZEOF_MEM_HEADER = q)
    (hn : n = (load m (q - SIZEOF_MEM_HEADER)).size) (hi : i < n) : m' (q + i) = m (q + i) :=
  h.payload _ (by omega) (by rw [stride]; omega)

lemma Stores.kalloc (h : Stores s o) (hk : kalloc fuel s.heap size = .ok (p, u)) (hr : Room s.heap (alignSize size)) :
    ∃ n, alignSize size ≤ n ∧ ∃ y, Objects.Step o (.make p n) y ∧ Stores ⟨u, p :: s.live⟩ y := by
  obtain ⟨bs, hw⟩ := h.whole
  obtain ⟨bs', b, rfl, ha, hw'⟩ := hw.kalloc_step hk hr
  have hnew : b + SIZEOF_MEM_HEADER ∉ s.live := (List.nodup_cons.mp hw'.nodup).1
  have hkept : ∀ q ∈ s.live, Kept s.heap.mem u.mem (q - SIZEOF_MEM_HEADER) ∧ q - SIZEOF_MEM_HEADER + SIZEOF_MEM_HEADER = q := by
    intro q hq
    obtain ⟨hqb, hqe, -⟩ := hw.header_mem hq
    exact ⟨(ha.keeps _ hqb).2 (by rintro rfl; exact hnew (hqe.symm ▸ hq)), hqe⟩
  have hsize : ∀ q x, o q = some x → x.size = (load u.mem (q - SIZEOF_MEM_HEADER)).size := fun q x hq =>
    (h.size q x hq).trans (hkept q ((h.live q).mpr ⟨x, hq⟩)).1.size.symm
  have hsep : ∀ q x, o q = some x → Objects.Separate (b + SIZEOF_MEM_HEADER) (load u.mem b).size q x.size := by
    intro q x hq
    have hlive := (h.live q).mpr ⟨x, hq⟩
    have hpair := List.rel_of_pairwise_cons hw'.wellTiled.disjoint hlive
    simp only [headerOf, Nat.add_sub_cancel] at hpair
    rw [Objects.Separate, hsize q x hq]
    omega
  have hnone : o (b + SIZEOF_MEM_HEADER) = none := by
    rw [Option.eq_none_iff_forall_ne_some]
    exact fun x hx => hnew ((h.live _).mpr ⟨x, hx⟩)
  have hsame : Objects.Kept s.heap.mem u.mem o := fun q x hq i hi => by
    obtain ⟨hk, hqe⟩ := hkept q ((h.live q).mpr ⟨x, hq⟩)
    exact kept_payload hk hqe (h.size q x hq) hi
  refine ⟨(load u.mem b).size, ha.size_le, _, .make hnone hsep, ⟨bs', hw'⟩, fun q => ?_, fun q x hq => ?_, h.held.make hsame hsep⟩
  · by_cases hq : q = b + SIZEOF_MEM_HEADER
    · subst hq
      simp [Function.update_self]
    · rw [Function.update_of_ne hq, ← h.live q, List.mem_cons, or_iff_right hq]
  · rcases Objects.update_eq_some hq with ⟨rfl, hx⟩ | ⟨-, hq⟩
    · obtain rfl := Option.some.inj hx
      rw [headerOf, Nat.add_sub_cancel]
    · exact hsize q x hq

lemma Stores.kfree (h : Stores s o) (hp : p ∈ s.live) (hl : Linked s p) :
    ∃ y, Objects.Step o (.drop p) y ∧ Stores ⟨kfree s.heap p, s.live.erase p⟩ y := by
  obtain ⟨bs, hw⟩ := h.whole
  obtain ⟨x, hx⟩ := (h.live p).mp hp
  obtain ⟨hw', hkeep⟩ := hw.kfree_step hp hl
  have hold : ∀ q y, Function.update o p none q = some y → q ≠ p ∧ o q = some y ∧ q ∈ s.live := fun q y hq => by
    rcases Objects.update_eq_some hq with ⟨-, hy⟩ | ⟨hne, hq⟩
    · cases hy
    · exact ⟨hne, hq, (h.live q).mpr ⟨y, hq⟩⟩
  refine ⟨_, .drop hx, hw', fun q => ?_, fun q y hq => ?_, h.held.drop fun q y hq i hi => ?_⟩
  · rw [hw.nodup.mem_erase_iff, h.live q]
    by_cases hq : q = p
    · subst hq
      simp [Function.update_self]
    · rw [Function.update_of_ne hq, and_iff_right hq]
  · obtain ⟨hne, hq, hlive⟩ := hold q y hq
    exact (h.size q y hq).trans (hkeep q hlive hne).size.symm
  · obtain ⟨hne, hq, hlive⟩ := hold q y hq
    exact kept_payload (hkeep q hlive hne) (hw.header_mem hlive).2.1 (h.size q y hq) hi

lemma Stores.write {a : ℕ} {v : BitVec 8} (h : Stores s o) (hp : p ∈ s.live) (hpa : p ≤ a) (ha : a < p + (headerOf s p).size) :
    ∃ y, Objects.Step o (.write p (a - p) v) y ∧ Stores ⟨{ s.heap with mem := Function.update s.heap.mem a v }, s.live⟩ y := by
  obtain ⟨bs, hw⟩ := h.whole
  obtain ⟨x, hx⟩ := (h.live p).mp hp
  obtain ⟨b, hb, hout⟩ := hw.outside_write (v := v) hp hpa ha
  obtain ⟨hw', hload⟩ := hw.fill hb hout
  have hi : a - p < x.size := by
    rw [h.size p x hx]
    omega
  have hheld := h.held.write (v := v) hx hi
  rw [Nat.add_sub_cancel' hpa] at hheld
  have hheader : ∀ q ∈ s.live, headerOf ⟨{ s.heap with mem := Function.update s.heap.mem a v }, s.live⟩ q = headerOf s q :=
    fun q hq => hload _ (hw.header_mem hq).1
  refine ⟨_, .write hx hi, ⟨bs, hw'⟩, fun q => ?_, fun q y hq => ?_, hheld⟩
  · by_cases hq : q = p
    · subst hq
      simp [Function.update_self, hp]
    · rw [Function.update_of_ne hq]
      exact h.live q
  · rcases Objects.update_eq_some hq with ⟨rfl, hy⟩ | ⟨-, hq⟩
    · obtain rfl := Option.some.inj hy
      rw [hheader q hp]
      exact h.size q x hx
    · rw [hheader q ((h.live q).mpr ⟨y, hq⟩)]
      exact h.size q y hq

lemma Stores.step (h : Stores s o) (hs : SafeStep s op t) : ∃ e y, Mirrors op e ∧ Objects.Step o e y ∧ Stores t y := by
  obtain ⟨hs, hsafe⟩ := hs
  cases hs with
  | kalloc hk =>
    obtain ⟨n, hn, y, hy, ht⟩ := h.kalloc hk hsafe
    exact ⟨_, y, .kalloc hn, hy, ht⟩
  | kfree hp =>
    obtain ⟨y, hy, ht⟩ := h.kfree hp hsafe
    exact ⟨_, y, .kfree, hy, ht⟩
  | @write p a v hp hpa ha =>
    obtain ⟨y, hy, ht⟩ := h.write (v := v) hp hpa ha
    refine ⟨_, y, ?_, hy, ht⟩
    have hm : Mirrors (.write (p + (a - p)) v) (.write p (a - p) v) := .write
    rwa [Nat.add_sub_cancel' hpa] at hm

end WordOS.Memory.HeapRuns
