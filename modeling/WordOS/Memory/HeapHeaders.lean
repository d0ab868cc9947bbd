import WordOS.Memory.Heap

/-! What writes to block headers change. -/

namespace WordOS.Memory

open Machine Lib.Bytes

def Apart (p q : ℕ) : Prop := p + SIZEOF_MEM_HEADER ≤ q ∨ q + SIZEOF_MEM_HEADER ≤ p

def Only (m m' : Mem) (ps : List ℕ) : Prop := ∀ a, (∀ p ∈ ps, a < p ∨ p + SIZEOF_MEM_HEADER ≤ a) → m' a = m a

variable {m m' m'' : Mem} {p q v : ℕ} {ps qs : List ℕ} {st : BitVec 8}

lemma Apart.symm (h : Apart p q) : Apart q p := Or.symm h

lemma Only.trans (h : Only m m' ps) (h' : Only m' m'' ps) : Only m m'' ps :=
  fun a ha => (h' a ha).trans (h a ha)

lemma Only.mono (h : Only m m' ps) (hs : ps ⊆ qs) : Only m m' qs :=
  fun a ha => h a fun p hp => ha p (hs hp)

lemma load_congr (h : ∀ i < SIZEOF_MEM_HEADER, m' (p + i) = m (p + i)) : load m' p = load m p := by
  have hr : ∀ k ≤ 12, read32 m' (p + k) = read32 m (p + k) := by
    intro k hk
    refine read32_congr fun i hi => ?_
    rw [Nat.add_assoc]
    exact h _ (by rw [SIZEOF_MEM_HEADER]; omega)
  rw [load, load, hr 8 (by decide), hr 12 (by decide), h 4 (by decide), show read32 m' p = _ from hr 0 (by decide)]
  rfl

lemma Only.load_eq (h : Only m m' ps) (hq : ∀ p ∈ ps, Apart p q) : load m' q = load m q := by
  refine load_congr fun i hi => h _ fun p hp => ?_
  have := hq p hp
  simp only [Apart, SIZEOF_MEM_HEADER] at this hi ⊢
  omega

lemma only_setSize : Only m (setSize m p v) [p] := by
  intro a ha
  have := ha p (by simp)
  exact write32_of_outside (by rw [SIZEOF_MEM_HEADER] at this; omega)

lemma only_setPrev : Only m (setPrev m p v) [p] := by
  intro a ha
  have := ha p (by simp)
  exact write32_of_outside (by rw [SIZEOF_MEM_HEADER] at this; omega)

lemma only_setNext : Only m (setNext m p v) [p] := by
  intro a ha
  have := ha p (by simp)
  exact write32_of_outside (by rw [SIZEOF_MEM_HEADER] at this; omega)

lemma only_setStatus : Only m (setStatus m p st) [p] := by
  intro a ha
  have := ha p (by simp)
  exact Function.update_of_ne (by rw [SIZEOF_MEM_HEADER] at this; omega) ..

lemma load_setSize : load (setSize m p v) p = { load m p with size := u32 v } := by
  have h4 : write32 m p v (p + 4) = m (p + 4) := write32_of_outside (by omega)
  rw [load, setSize, read32_write32_self, h4, read32_write32_of_disjoint (by omega),
    read32_write32_of_disjoint (by omega)]
  rfl

lemma load_setPrev : load (setPrev m p v) p = { load m p with prev := u32 v } := by
  have h4 : write32 m (p + 8) v (p + 4) = m (p + 4) := write32_of_outside (by omega)
  rw [load, setPrev, read32_write32_self, h4, read32_write32_of_disjoint (by omega),
    read32_write32_of_disjoint (by omega)]
  rfl

lemma load_setNext : load (setNext m p v) p = { load m p with next := u32 v } := by
  have h4 : write32 m (p + 12) v (p + 4) = m (p + 4) := write32_of_outside (by omega)
  rw [load, setNext, read32_write32_self, h4, read32_write32_of_disjoint (by omega),
    read32_write32_of_disjoint (by omega)]
  rfl

lemma load_setStatus : load (setStatus m p st) p = { load m p with status := st } := by
  have h : ∀ k, k + 4 ≤ 4 ∨ 5 ≤ k → read32 (setStatus m p st) (p + k) = read32 m (p + k) := by
    intro k hk
    exact read32_congr fun i hi => Function.update_of_ne (by omega) ..
  rw [load, h 8 (by omega), h 12 (by omega), show read32 (setStatus m p st) p = _ from h 0 (by omega)]
  simp [setStatus, load]

lemma Only.load_of_apart (h : Only m m' [p]) (hq : Apart p q) : load m' q = load m q :=
  h.load_eq (by simpa using hq)

lemma load_setSize_of_apart (h : Apart p q) : load (setSize m p v) q = load m q := only_setSize.load_of_apart h
lemma load_setPrev_of_apart (h : Apart p q) : load (setPrev m p v) q = load m q := only_setPrev.load_of_apart h
lemma load_setNext_of_apart (h : Apart p q) : load (setNext m p v) q = load m q := only_setNext.load_of_apart h
lemma load_setStatus_of_apart (h : Apart p q) : load (setStatus m p st) q = load m q := only_setStatus.load_of_apart h

lemma u32_load (m : Mem) (p : ℕ) :
    u32 (load m p).size = (load m p).size ∧ u32 (load m p).prev = (load m p).prev ∧
      u32 (load m p).next = (load m p).next :=
  ⟨u32_eq read32_lt, u32_eq read32_lt, u32_eq read32_lt⟩

lemma splitBlock_ok {size : ℕ} (hq : q = p + size + SIZEOF_MEM_HEADER) (hq32 : q < 2 ^ 32) :
    load (splitBlock m p size) p = { load m p with size := size, next := q } ∧
    load (splitBlock m p size) q =
      ⟨(load m p).size - size - SIZEOF_MEM_HEADER, HEAP_FREE, (load m p).prev, (load m p).next⟩ ∧
    Only m (splitBlock m p size) [p, q] := by
  have hpq : Apart p q := .inl (by omega)
  have hqp := hpq.symm
  have hs : u32 size = size := u32_eq (by omega)
  have hu : u32 q = q := u32_eq hq32
  have hr : u32 ((load m p).size - size - SIZEOF_MEM_HEADER) = (load m p).size - size - SIZEOF_MEM_HEADER := by
    have h : (load m p).size < 2 ^ 32 := read32_lt
    exact u32_eq (by omega)
  obtain ⟨_, h₂, h₃⟩ := u32_load m p
  simp only [splitBlock, ← hq, hu]
  refine ⟨?_, ?_, ?_⟩
  · simp only [load_setSize, load_setNext, load_setSize_of_apart hqp, load_setPrev_of_apart hqp,
      load_setNext_of_apart hqp, load_setStatus_of_apart hqp, hs, hu]
  · simp only [load_setSize, load_setNext, load_setPrev, load_setStatus, load_setSize_of_apart hqp,
      load_setSize_of_apart hpq, load_setNext_of_apart hqp, load_setNext_of_apart hpq,
      load_setStatus_of_apart hqp, hr, h₂, h₃]
  · have hp : [p] ⊆ [p, q] := by simp
    have hq : [q] ⊆ [p, q] := by simp
    exact (((((only_setStatus.mono hq).trans (only_setSize.mono hq)).trans (only_setNext.mono hq)).trans
      (only_setPrev.mono hq)).trans (only_setNext.mono hp)).trans (only_setSize.mono hp)

lemma takeNode_whole {size past : ℕ} (h : (load m p).size - size < HEAP_MIN_SPLIT_SIZE) :
    load (takeNode m p past size) p = { load m p with status := HEAP_USED, prev := u32 past } ∧
    Only m (takeNode m p past size) [p] := by
  rw [takeNode, if_neg (by omega)]
  exact ⟨by simp only [load_setPrev, load_setStatus], only_setStatus.trans only_setPrev⟩

lemma takeNode_split {size past : ℕ} (h : HEAP_MIN_SPLIT_SIZE ≤ (load m p).size - size)
    (hq : q = p + size + SIZEOF_MEM_HEADER) (hq32 : q < 2 ^ 32) :
    load (takeNode m p past size) p = ⟨size, HEAP_USED, u32 past, q⟩ ∧
    load (takeNode m p past size) q =
      ⟨(load m p).size - size - SIZEOF_MEM_HEADER, HEAP_FREE, (load m p).prev, (load m p).next⟩ ∧
    Only m (takeNode m p past size) [p, q] := by
  have hpq : Apart p q := .inl (by omega)
  obtain ⟨h₁, h₂, h₃⟩ := splitBlock_ok (m := m) hq hq32
  rw [takeNode, if_pos h]
  refine ⟨?_, ?_, ?_⟩
  · simp only [load_setPrev, load_setStatus, h₁]
  · simp only [load_setPrev_of_apart hpq, load_setStatus_of_apart hpq, h₂]
  · have hp : [p] ⊆ [p, q] := by simp
    exact (h₃.trans (only_setStatus.mono hp)).trans (only_setPrev.mono hp)

lemma appendNode_ok {s : Heap} {past size : ℕ} (hc : s.curHeapPos < 2 ^ 32)
    (hpast : past ≠ 0 → Apart past s.curHeapPos) :
    load (appendNode s past size).mem s.curHeapPos =
      { load s.mem s.curHeapPos with size := u32 size, status := HEAP_USED, prev := u32 past } ∧
    (past ≠ 0 → load (appendNode s past size).mem past = { load s.mem past with next := s.curHeapPos }) ∧
    Only s.mem (appendNode s past size).mem (s.curHeapPos :: if past = 0 then [] else [past]) ∧
    (appendNode s past size).curHeapPos = u32 (s.curHeapPos + u32 size + SIZEOF_MEM_HEADER) := by
  by_cases h0 : past = 0
  · simp only [appendNode, h0, ne_eq, not_true_eq_false, if_false, if_true, load_setStatus, load_setSize, load_setPrev]
    exact ⟨trivial, fun h => h.elim, (only_setPrev.trans only_setSize).trans only_setStatus, trivial⟩
  · have hp := hpast h0
    have hp' := hp.symm
    simp only [appendNode, h0, ne_eq, not_false_eq_true, if_true, if_false, load_setStatus, load_setSize, load_setPrev,
      load_setNext, load_setNext_of_apart hp, load_setStatus_of_apart hp', load_setSize_of_apart hp',
      load_setPrev_of_apart hp', u32_eq hc]
    refine ⟨trivial, fun _ => trivial, ?_, trivial⟩
    have hcs : [s.curHeapPos] ⊆ [s.curHeapPos, past] := by simp
    have hps : [past] ⊆ [s.curHeapPos, past] := by simp
    exact (((only_setPrev.mono hcs).trans (only_setNext.mono hps)).trans (only_setSize.mono hcs)).trans
      (only_setStatus.mono hcs)

lemma mergeNext_ok (hpq : Apart p q) :
    load (mergeNext m p q) p =
      { load m p with
        size := u32 ((load m p).size + ((load m q).size + SIZEOF_MEM_HEADER)), next := (load m q).next } ∧
    load (mergeNext m p q) q = { load m q with size := 0 } ∧ Only m (mergeNext m p q) [p, q] := by
  have hqp := hpq.symm
  have hn := (u32_load m q).2.2
  simp only [mergeNext]
  refine ⟨?_, ?_, ?_⟩
  · simp only [load_setNext, load_setSize, load_setSize_of_apart hqp, load_setSize_of_apart hpq, hn,
      u32_u32]
  · simp only [load_setNext_of_apart hpq, load_setSize, load_setSize_of_apart hpq]
    rfl
  · have hp : [p] ⊆ [p, q] := by simp
    have hq : [q] ⊆ [p, q] := by simp
    exact ((only_setSize.mono hp).trans (only_setSize.mono hq)).trans (only_setNext.mono hp)

lemma mergePrev_ok {n : ℕ} (hpq : Apart p q) (hn : (load m p).next = n) (hnp : n ≠ 0 → Apart n p)
    (hnq : n ≠ 0 → Apart n q) :
    load (mergePrev m p q) q =
      { load m q with size := u32 ((load m q).size + ((load m p).size + SIZEOF_MEM_HEADER)), next := n } ∧
    (n ≠ 0 → load (mergePrev m p q) n = { load m n with prev := u32 q }) ∧
    Only m (mergePrev m p q) (p :: q :: if n = 0 then [] else [n]) := by
  have hqp := hpq.symm
  have hn32 : u32 n = n := hn ▸ (u32_load m p).2.2
  set m' := setNext (setPrev (setSize (setSize m q (u32 ((load m q).size + ((load m p).size + SIZEOF_MEM_HEADER))))
    p 0) p 0) q n with hm'
  have hq' : load m' q =
      { load m q with size := u32 ((load m q).size + ((load m p).size + SIZEOF_MEM_HEADER)), next := n } := by
    simp only [hm', load_setNext, load_setPrev_of_apart hpq, load_setSize_of_apart hpq, load_setSize, hn32, u32_u32]
  have hp' : (load m' p).next = n := by
    simp only [hm', load_setNext_of_apart hqp, load_setPrev, load_setSize, load_setSize_of_apart hqp, hn]
  have honly : Only m m' [p, q] := by
    have hp : [p] ⊆ [p, q] := by simp
    have hq : [q] ⊆ [p, q] := by simp
    exact (((only_setSize.mono hq).trans (only_setSize.mono hp)).trans (only_setPrev.mono hp)).trans
      (only_setNext.mono hq)
  have he : mergePrev m p q = if n ≠ 0 then setNext (setPrev m' n q) p 0 else m' := by
    have hn' : (load (setPrev (setSize (setSize m q (u32 ((load m q).size +
        ((load m p).size + SIZEOF_MEM_HEADER)))) p 0) p 0) p).next = n := by
      simp only [load_setPrev, load_setSize, load_setSize_of_apart hqp, hn]
    simp only [mergePrev, hn', ← hm', hp']
  rw [he]
  by_cases h0 : n = 0
  · rw [if_neg (not_not.mpr h0), if_pos h0]
    exact ⟨hq', fun h => (h h0).elim, honly⟩
  · rw [if_pos h0, if_neg h0]
    have hnp' := hnp h0
    have hnq' := hnq h0
    refine ⟨?_, fun _ => ?_, ?_⟩
    · rw [load_setNext_of_apart hpq, load_setPrev_of_apart hnq', hq']
    · rw [load_setNext_of_apart hnp'.symm, load_setPrev, honly.load_eq (by simp [hnp'.symm, hnq'.symm])]
    · have hp : [p] ⊆ [p, q, n] := by simp
      have hn : [n] ⊆ [p, q, n] := by simp
      exact ((honly.mono (by simp)).trans (only_setPrev.mono hn)).trans (only_setNext.mono hp)

end WordOS.Memory
