import WordOS.Lib.LinkedList
import WordOS.Memory.HeapHeaders

/-! The blocks of the heap along their strides, and the walk of `kalloc` over them. -/

namespace WordOS.Memory

open Machine Lib.Bytes Lib.LinkedList

def stride (m : Mem) (p : ℕ) : ℕ := p + SIZEOF_MEM_HEADER + (load m p).size

/-- The blocks tile the memory from `heap_start` to `cur_heap_pos`. -/
structure Strides (s : Heap) (bs : List ℕ) : Prop where
  start : s.heapStart ≠ 0
  below : s.curHeapPos < 2 ^ 32
  walk : Seg (stride s.mem) s.heapStart bs s.curHeapPos

/-- The block `q` is as it was, but for its links. -/
structure Kept (m m' : Mem) (q : ℕ) : Prop where
  size : (load m' q).size = (load m q).size
  status : (load m' q).status = (load m q).status
  payload : ∀ a, q + SIZEOF_MEM_HEADER ≤ a → a < stride m q → m' a = m a

lemma Kept.stride_eq {m m' : Mem} {q : ℕ} (h : Kept m m' q) : stride m' q = stride m q := by
  rw [stride, stride, h.size]

lemma Kept.trans {m m' m'' : Mem} {q : ℕ} (h : Kept m m' q) (h' : Kept m' m'' q) : Kept m m'' q :=
  ⟨h'.size.trans h.size, h'.status.trans h.status, fun a ha hb =>
    (h'.payload a ha (h.stride_eq ▸ hb)).trans (h.payload a ha hb)⟩

lemma lt_stride (m : Mem) (p : ℕ) : p < stride m p := by
  rw [stride, SIZEOF_MEM_HEADER]
  omega

lemma header_le_stride (m : Mem) (p : ℕ) : p + SIZEOF_MEM_HEADER ≤ stride m p := Nat.le_add_right ..

/-- The test of `kalloc`. -/
abbrev Fits (m : Mem) (size p : ℕ) : Prop := size ≤ (load m p).size ∧ (load m p).status = HEAP_FREE

namespace Strides

variable {s : Heap} {l l' bs : List ℕ} {p q past size fuel : ℕ} {m : Mem}

lemma start_le (h : Strides s bs) (hp : p ∈ bs) : s.heapStart ≤ p := h.walk.start_le_mem (lt_stride _) hp

lemma ne_zero (h : Strides s bs) (hp : p ∈ bs) : p ≠ 0 := h.walk.ne_zero hp

lemma stride_le (h : Strides s bs) (hp : p ∈ bs) : stride s.mem p ≤ s.curHeapPos := h.walk.next_le (lt_stride _) hp

lemma lt_two_pow (h : Strides s bs) (hp : p ∈ bs) : stride s.mem p < 2 ^ 32 :=
  (h.stride_le hp).trans_lt h.below

lemma before (h : Strides s (l ++ p :: l')) (hq : q ∈ l) : stride s.mem q ≤ p :=
  (List.pairwise_append.mp (h.walk.pairwise (lt_stride _))).2.2 q hq p List.mem_cons_self

lemma behind (h : Strides s (l ++ p :: l')) (hq : q ∈ l') : stride s.mem p ≤ q :=
  (List.pairwise_cons.mp (List.pairwise_append.mp (h.walk.pairwise (lt_stride _))).2.1).1 q hq

lemma nodup (h : Strides s bs) : bs.Nodup :=
  (h.walk.pairwise (lt_stride _)).imp fun {a b} hab he => by
    have := lt_stride s.mem a
    omega

lemma disjoint (h : Strides s bs) (hp : p ∈ bs) (hq : q ∈ bs) (hne : p ≠ q) :
    stride s.mem p ≤ q ∨ stride s.mem q ≤ p := by
  obtain ⟨l, l', rfl⟩ := List.append_of_mem hp
  rcases List.mem_append.mp hq with hq | hq
  · exact .inr (h.before hq)
  · exact .inl (h.behind ((List.mem_cons.mp hq).resolve_left (Ne.symm hne)))

lemma apart (h : Strides s bs) (hp : p ∈ bs) (hq : q ∈ bs) (hne : p ≠ q) : Apart p q :=
  (h.disjoint hp hq hne).imp (header_le_stride ..).trans (header_le_stride ..).trans

lemma apart_within {r : ℕ} (h : Strides s (l ++ p :: l')) (hp : p ≤ q) (hq : q + SIZEOF_MEM_HEADER ≤ stride s.mem p)
    (hr : r ∈ l ++ l') : Apart q r := by
  rcases List.mem_append.mp hr with hr | hr
  · exact .inr ((header_le_stride s.mem r).trans ((h.before hr).trans hp))
  · exact .inl (hq.trans (h.behind hr))

lemma ne_of_mem {r : ℕ} (h : Strides s (l ++ p :: l')) (hr : r ∈ l ++ l') : r ≠ p := by
  have hr' := lt_stride s.mem r
  have hp := lt_stride s.mem p
  rcases List.mem_append.mp hr with hr | hr
  · have := h.before hr
    omega
  · have := h.behind hr
    omega

lemma stride_eq (h : Strides s (l ++ p :: l')) : stride s.mem p = l'.headD s.curHeapPos := by
  obtain ⟨_, _, _, _, hl'⟩ := seg_append.mp h.walk
  exact Seg.head hl'

lemma mem_of_walk (h : Strides s bs) (hp : Seg (stride s.mem) s.heapStart l p) (hlt : p < s.curHeapPos) : p ∈ bs := by
  obtain ⟨l'', rfl⟩ := h.walk.split_of_lt (lt_stride _) hp hlt
  simp

lemma before_of_stride (h : Strides s (l ++ p :: l')) (hq : q ∈ l ++ p :: l') (hs : stride s.mem q = p) :
    ∃ l₀, l = l₀ ++ [q] := by
  have hqp : q < p := hs ▸ lt_stride s.mem q
  have hql : q ∈ l := by
    rcases List.mem_append.mp hq with hq | hq
    · exact hq
    · rcases List.mem_cons.mp hq with rfl | hq
      · omega
      · have := h.behind hq
        have := lt_stride s.mem p
        omega
  obtain ⟨l₀, l₁, rfl⟩ := List.append_of_mem hql
  cases l₁ with
  | nil => exact ⟨l₀, rfl⟩
  | cons r l₁ =>
    have h' : Strides s (l₀ ++ q :: r :: (l₁ ++ p :: l')) := by simpa using h
    have hr : r = p := h'.stride_eq.symm.trans hs
    exact absurd hr (h.ne_of_mem (by simp))

lemma kept {ps : List ℕ} (h : Strides s bs) (hq : q ∈ bs) (ho : Only s.mem m ps)
    (hps : ∀ r ∈ ps, r ∈ bs ∨ r + SIZEOF_MEM_HEADER ≤ q ∨ stride s.mem q ≤ r)
    (hs : (load m q).size = (load s.mem q).size) (hst : (load m q).status = (load s.mem q).status) :
    Kept s.mem m q := by
  refine ⟨hs, hst, fun a ha hb => ho a fun r hr => ?_⟩
  rcases hps r hr with hm | hle | hle
  · by_cases hrq : r = q
    · exact .inr (hrq ▸ ha)
    · have := header_le_stride s.mem r
      rcases h.disjoint hm hq hrq with hd | hd <;> omega
  · exact .inr (by omega)
  · exact .inl (by omega)

lemma header_le (h : Strides s bs) (hp : p ∈ bs) : p + SIZEOF_MEM_HEADER ≤ s.curHeapPos :=
  (header_le_stride ..).trans (h.stride_le hp)

lemma last_le (h : Strides s bs) :
    bs.getLastD 0 = 0 ∨ bs.getLastD 0 ∈ bs ∧ bs.getLastD 0 + SIZEOF_MEM_HEADER ≤ s.curHeapPos := by
  rcases List.eq_nil_or_concat bs with rfl | ⟨l, r, rfl⟩
  · exact .inl rfl
  · refine .inr ?_
    rw [List.concat_eq_append, List.getLastD_concat] at *
    exact ⟨by simp, h.header_le (by simp)⟩

lemma last_le_of_split (h : Strides s (l ++ p :: l')) : l.getLastD 0 = 0 ∨ l.getLastD 0 + SIZEOF_MEM_HEADER ≤ p := by
  rcases List.eq_nil_or_concat l with rfl | ⟨l, r, rfl⟩
  · exact .inl rfl
  · refine .inr ?_
    rw [List.concat_eq_append, List.getLastD_concat]
    exact (header_le_stride ..).trans (h.before (by simp))

lemma split_le (h : Strides s (l ++ p :: l')) (hsplit : HEAP_MIN_SPLIT_SIZE ≤ (load s.mem p).size - size)
    (hq : q = p + size + SIZEOF_MEM_HEADER) : q + SIZEOF_MEM_HEADER ≤ stride s.mem p ∧ q < 2 ^ 32 := by
  have h32 := h.lt_two_pow (p := p) (by simp)
  rw [stride, HEAP_MIN_SPLIT_SIZE] at *
  omega

lemma takeNode_load (h : Strides s (l ++ p :: l')) :
    (load (takeNode s.mem p past size) p).size =
      (if (load s.mem p).size - size ≥ HEAP_MIN_SPLIT_SIZE then size else (load s.mem p).size) ∧
    ∀ r ∈ l ++ l', load (takeNode s.mem p past size) r = load s.mem r := by
  rcases Nat.lt_or_ge ((load s.mem p).size - size) HEAP_MIN_SPLIT_SIZE with hsplit | hsplit
  · have ⟨hp, ho⟩ : load (takeNode s.mem p past size) p = _ ∧ _ := takeNode_whole hsplit
    refine ⟨by rw [hp, if_neg (Nat.not_le.mpr hsplit)], fun r hr => ?_⟩
    exact ho.load_of_apart (h.apart_within le_rfl (header_le_stride ..) hr)
  · obtain ⟨hqs, hq32⟩ := h.split_le hsplit rfl
    have ⟨hp, _, ho⟩ : load (takeNode s.mem p past size) p = _ ∧ _ := takeNode_split hsplit rfl hq32
    refine ⟨by rw [hp, if_pos hsplit], fun r hr => ho.load_eq ?_⟩
    simp only [List.mem_cons, List.not_mem_nil, or_false, forall_eq_or_imp, forall_eq]
    exact ⟨h.apart_within le_rfl (header_le_stride ..) hr, h.apart_within (by omega) hqs hr⟩

lemma appendNode_load (h : Strides s bs) (hc : s.curHeapPos < 2 ^ 32) :
    (load (appendNode s (bs.getLastD 0) size).mem s.curHeapPos).size = u32 size ∧
    ∀ r ∈ bs, ∃ n, load (appendNode s (bs.getLastD 0) size).mem r = { load s.mem r with next := n } ∧
      (r ≠ bs.getLastD 0 → n = (load s.mem r).next) := by
  have hlast := h.last_le
  obtain ⟨hcur, hprev, ho, -⟩ : load (appendNode s (bs.getLastD 0) size).mem s.curHeapPos = _ ∧ _ := Memory.appendNode_ok hc
    (fun h0 => .inl (hlast.resolve_left h0).2)
  refine ⟨by rw [hcur], fun r hr => ?_⟩
  by_cases hrl : r = bs.getLastD 0
  · subst hrl
    exact ⟨_, hprev (h.ne_zero hr), fun hne => (hne rfl).elim⟩
  · refine ⟨(load s.mem r).next, ho.load_eq fun a ha => ?_, fun _ => rfl⟩
    have hapart : Apart s.curHeapPos r := .inr (h.header_le hr)
    split_ifs at ha with h0
    · obtain rfl := List.mem_singleton.mp ha
      exact hapart
    · simp only [List.mem_cons, List.not_mem_nil, or_false] at ha
      rcases ha with rfl | rfl
      · exact hapart
      · exact h.apart (hlast.resolve_left h0).1 hr (Ne.symm hrl)

lemma kallocFrom_ok (h : Strides s (l ++ l'))
    (hf : l'.length < fuel ∨ kallocFrom fuel s size (l'.headD s.curHeapPos) (l.getLastD 0) ≠ .error .fuel) :
    (∃ l₁ p l₂, l' = l₁ ++ p :: l₂ ∧ (∀ q ∈ l₁, ¬ Fits s.mem size q) ∧ Fits s.mem size p ∧
      kallocFrom fuel s size (l'.headD s.curHeapPos) (l.getLastD 0) =
        .ok (p + SIZEOF_MEM_HEADER, { s with mem := takeNode s.mem p ((l ++ l₁).getLastD 0) size })) ∨
    (∀ p ∈ l', ¬ Fits s.mem size p) ∧
      kallocFrom fuel s size (l'.headD s.curHeapPos) (l.getLastD 0) =
        .ok (u32 (s.curHeapPos + SIZEOF_MEM_HEADER), appendNode s ((l ++ l').getLastD 0) size) := by
  induction fuel generalizing l l' with
  | zero => simp [kallocFrom] at hf
  | succ fuel ih =>
    cases l' with
    | nil => exact .inr (by simp [kallocFrom])
    | cons p l' =>
      have hlt : p < s.curHeapPos := (lt_stride _ _).trans_le (h.stride_le (by simp))
      have h32 := h.lt_two_pow (p := p) (by simp)
      rw [List.headD_cons, kallocFrom, if_pos hlt] at hf ⊢
      by_cases hfit : Fits s.mem size p
      · refine .inl ⟨[], p, l', rfl, by simp, hfit, ?_⟩
        rw [if_pos hfit, u32_eq ((header_le_stride _ _).trans_lt h32), List.append_nil]
      · have hnext : u32 (p + ((load s.mem p).size + SIZEOF_MEM_HEADER)) = l'.headD s.curHeapPos := by
          rw [← h.stride_eq, ← u32_eq h32, stride]
          congr 1
          omega
        have hlast : p = (l ++ [p]).getLastD 0 := by simp
        rw [if_neg hfit, hnext] at hf ⊢
        have happ : l ++ p :: l' = l ++ [p] ++ l' := by simp
        rw [happ] at h ⊢
        have := ih h (hf.imp (by simp) (by rw [← hlast]; exact id))
        rw [← hlast] at this
        refine this.imp (fun ⟨l₁, q, l₂, hl, hno, hq, hok⟩ => ?_) fun ⟨hno, hok⟩ => ⟨?_, hok⟩
        · refine ⟨p :: l₁, q, l₂, by rw [hl, List.cons_append], List.forall_mem_cons.mpr ⟨hfit, hno⟩, hq, ?_⟩
          rw [hok]
          simp
        · exact List.forall_mem_cons.mpr ⟨hfit, hno⟩

lemma kalloc_ok {n : ℕ} (h : Strides s l) (hf : l.length < fuel ∨ kalloc fuel s n ≠ .error .fuel) :
    (∃ l₁ p l₂, l = l₁ ++ p :: l₂ ∧ (∀ q ∈ l₁, ¬ Fits s.mem (alignSize n) q) ∧ Fits s.mem (alignSize n) p ∧
      kalloc fuel s n = .ok (p + SIZEOF_MEM_HEADER, { s with mem := takeNode s.mem p (l₁.getLastD 0) (alignSize n) })) ∨
    (∀ p ∈ l, ¬ Fits s.mem (alignSize n) p) ∧
      kalloc fuel s n = .ok (u32 (s.curHeapPos + SIZEOF_MEM_HEADER), appendNode s (l.getLastD 0) (alignSize n)) := by
  have hhead : s.heapStart = l.headD s.curHeapPos := h.walk.head
  have he : kalloc fuel s n = kallocFrom fuel s (alignSize n) (l.headD s.curHeapPos) (([] : List ℕ).getLastD 0) := by
    rw [kalloc, hhead]
    rfl
  rw [he] at hf ⊢
  exact kallocFrom_ok (l := []) h hf

end Strides

end WordOS.Memory
