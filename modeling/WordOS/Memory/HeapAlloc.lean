import WordOS.Memory.HeapTiling

/-! What `kalloc` does to a tiled heap. -/

namespace WordOS.Memory

open Machine Lib.Bytes Lib.LinkedList

/-- The block `p` is given out of a heap with blocks `bs`, which leaves the blocks `bs'`. -/
structure Allocated (s t : Heap) (bs bs' : List ℕ) (size p : ℕ) : Prop where
  tiled : Tiled t bs'
  start : t.heapStart = s.heapStart
  mem : p ∈ bs'
  used : (load t.mem p).status = HEAP_USED
  size_le : size ≤ (load t.mem p).size
  free : p ∈ bs → (load s.mem p).status = HEAP_FREE
  keeps : ∀ q ∈ bs, q ∈ bs' ∧ (q ≠ p → Kept s.mem t.mem q)

/-- The walk from `heap_start` meets a free block of at least `size` bytes, or there is room for
a new one behind the last block. -/
def Room (s : Heap) (size : ℕ) : Prop :=
  (∃ l p, Seg (stride s.mem) s.heapStart l p ∧ p < s.curHeapPos ∧ size ≤ (load s.mem p).size ∧
    (load s.mem p).status = HEAP_FREE) ∨
  s.curHeapPos + size + SIZEOF_MEM_HEADER ≤ s.heapStart + HEAP_START_SIZE

namespace Tiled

variable {s : Heap} {l l' bs : List ℕ} {p q past size fuel : ℕ} {m : Mem}

lemma takeNode_whole (h : Tiled s (l ++ p :: l')) (hs : size ≤ (load s.mem p).size) (hf : (load s.mem p).status = HEAP_FREE)
    (hsplit : (load s.mem p).size - size < HEAP_MIN_SPLIT_SIZE) :
    Allocated s { s with mem := takeNode s.mem p (l.getLastD 0) size } (l ++ p :: l') (l ++ p :: l') size p := by
  have h32 := h.strides.lt_two_pow (p := p) (by simp)
  have hlast := h.strides.last_le_of_split
  have hpast : u32 (l.getLastD 0) = l.getLastD 0 := u32_eq (by
    have := lt_stride s.mem p
    omega)
  have ⟨hp, ho⟩ : load (takeNode s.mem p (l.getLastD 0) size) p = _ ∧ _ := Memory.takeNode_whole hsplit
  have hne : ∀ r ∈ l ++ p :: l', r ≠ p → load (takeNode s.mem p (l.getLastD 0) size) r = load s.mem r := by
    intro r hr hrp
    exact h.strides.takeNode_load.2 r (mem_of_split hr hrp)
  refine ⟨?_, rfl, by simp, by rw [hp], by rwa [hp], fun _ => hf, fun q hq => ⟨hq, fun hqp => ?_⟩⟩
  · refine h.congr ho (by simp) (fun r hr => ?_) fun r hr => ?_
    · by_cases hrp : r = p
      · subst hrp
        rw [hp]
        exact ⟨rfl, rfl⟩
      · rw [hne r hr hrp]
        exact ⟨rfl, rfl⟩
    · by_cases hrp : r = p
      · subst hrp
        rw [hp, hpast]
        exact .inr hlast
      · exact .inl (by rw [hne r hr hrp])
  · exact h.strides.kept hq ho (by simp) (by rw [hne q hq hqp]) (by rw [hne q hq hqp])

lemma takeNode_ok (h : Tiled s (l ++ p :: l')) (hs : size ≤ (load s.mem p).size)
    (hf : (load s.mem p).status = HEAP_FREE) :
    ∃ bs', Allocated s { s with mem := takeNode s.mem p (l.getLastD 0) size } (l ++ p :: l') bs' size p := by
  rcases Nat.lt_or_ge ((load s.mem p).size - size) HEAP_MIN_SPLIT_SIZE with hsplit | hsplit
  · exact ⟨_, h.takeNode_whole hs hf hsplit⟩
  · have h32 := h.strides.lt_two_pow (p := p) (by simp)
    have hlast := h.strides.last_le_of_split
    have hpast : u32 (l.getLastD 0) = l.getLastD 0 := u32_eq (by
      have := lt_stride s.mem p
      omega)
    set q := p + size + SIZEOF_MEM_HEADER with hq
    obtain ⟨hqs, hq32⟩ := h.strides.split_le hsplit hq
    obtain ⟨hp, hpq, ho⟩ : load (takeNode s.mem p (l.getLastD 0) size) p = _ ∧ _ := takeNode_split hsplit hq hq32
    rw [hpast] at hp
    refine ⟨l ++ p :: q :: l', ?_, rfl, by simp, by rw [hp], by rw [hp], fun _ => hf, fun r hr => ⟨?_, fun hrp => ?_⟩⟩
    · refine h.divide ho ?_ ?_ ?_ ?_ ?_ ?_
      · rw [stride, hp, hq]
        simp only []
        omega
      · rw [stride, stride, hpq]
        rw [HEAP_MIN_SPLIT_SIZE] at hsplit
        simp only []
        omega
      · rw [hp]
      · rw [hpq]
      · rw [hp]
        exact hlast
      · rw [hpq]
        refine (h.back p (by simp)).imp_right fun hb => ?_
        simp only []
        omega
    · exact mem_behind.mpr (.inr hr)
    · have hr' := mem_of_split hr hrp
      have hload : load (takeNode s.mem p (l.getLastD 0) size) r = load s.mem r := h.strides.takeNode_load.2 r hr'
      have hrq : q + SIZEOF_MEM_HEADER ≤ r ∨ stride s.mem r ≤ q := by
        rcases h.strides.disjoint hr (by simp) hrp with hd | hd <;> omega
      exact h.strides.kept hr ho (by simp [hrq]) (by rw [hload]) (by rw [hload])

lemma appendNode_ok (h : Tiled s bs) (hs : s.curHeapPos + size + SIZEOF_MEM_HEADER ≤ s.heapStart + HEAP_START_SIZE) :
    Allocated s (appendNode s (bs.getLastD 0) size) bs (bs ++ [s.curHeapPos]) size s.curHeapPos := by
  have hreg := h.region
  have hc32 : s.curHeapPos < 2 ^ 32 := by omega
  have hsize : u32 size = size := u32_eq (by omega)
  have hlast := h.strides.last_le
  have hpast : u32 (bs.getLastD 0) = bs.getLastD 0 := u32_eq (by omega)
  obtain ⟨hcur, hprev, ho, hpos⟩ : load (appendNode s (bs.getLastD 0) size).mem s.curHeapPos = _ ∧ _ := Memory.appendNode_ok hc32
    (fun h0 => .inl (hlast.resolve_left h0).2)
  have ⟨_, hsame⟩ : (load (appendNode s (bs.getLastD 0) size).mem s.curHeapPos).size = _ ∧ _ := h.strides.appendNode_load hc32
  rw [hsize, hpast] at hcur
  rw [hsize, u32_eq (by omega)] at hpos
  have hps : ∀ r ∈ s.curHeapPos :: (if bs.getLastD 0 = 0 then [] else [bs.getLastD 0]), r ∈ bs ++ [s.curHeapPos] := by
    intro r hr
    split_ifs at hr with h0
    · simp_all
    · simp only [List.mem_cons, List.not_mem_nil, or_false] at hr
      rcases hr with rfl | rfl
      · simp
      · exact List.mem_append_left _ (hlast.resolve_left h0).1
  refine ⟨h.extend rfl ?_ ?_ ho hps ?_ ?_ ?_ ?_ ?_, rfl, by simp, by rw [hcur], by rw [hcur], ?_, ?_⟩
  · rw [hpos, stride, hcur]
    simp only []
    omega
  · omega
  · rw [hcur]
    exact h.blank_next (by omega)
  · rw [hcur]
  · intro r hr
    obtain ⟨n, hn, -⟩ := hsame r hr
    rw [hn]
    exact ⟨rfl, rfl⟩
  · intro h0
    rw [hprev h0]
  · intro r hr hrl
    obtain ⟨n, hn, hnext⟩ := hsame r hr
    rw [hn, hnext hrl]
  · intro hm
    have := h.strides.header_le hm
    rw [SIZEOF_MEM_HEADER] at this
    omega
  · intro q hq
    obtain ⟨n, hn, -⟩ := hsame q hq
    refine ⟨List.mem_append_left _ hq, fun _ => h.strides.kept hq ho (fun r hr => ?_) (by rw [hn]) (by rw [hn])⟩
    rcases List.mem_append.mp (hps r hr) with hr | hr
    · exact .inl hr
    · obtain rfl := List.mem_singleton.mp hr
      exact .inr (.inr (h.strides.stride_le hq))

lemma room_behind (h : Tiled s bs) (hroom : Room s size) (hno : ∀ q ∈ bs, ¬ Fits s.mem size q) :
    s.curHeapPos + size + SIZEOF_MEM_HEADER ≤ s.heapStart + HEAP_START_SIZE := by
  refine hroom.resolve_left ?_
  rintro ⟨l, p, hp, hlt, hs, hst⟩
  exact hno p (h.strides.mem_of_walk hp hlt) ⟨hs, hst⟩

lemma kalloc_ok (h : Tiled s bs) {n : ℕ} (hf : bs.length < fuel ∨ kalloc fuel s n ≠ .error .fuel) :
    ∃ r t, kalloc fuel s n = .ok (r, t) ∧ (Room s (alignSize n) →
      ∃ bs' p, r = p + SIZEOF_MEM_HEADER ∧ Allocated s t bs bs' (alignSize n) p) := by
  rcases h.strides.kalloc_ok hf with ⟨l, p, l', hbs, -, hfit, hok⟩ | ⟨hno, hok⟩
  · subst hbs
    obtain ⟨bs', ha⟩ := h.takeNode_ok hfit.1 hfit.2
    exact ⟨_, _, hok, fun _ => ⟨bs', p, rfl, ha⟩⟩
  · refine ⟨_, _, hok, fun hroom => ?_⟩
    have hregion := h.region
    have hroom' := h.room_behind hroom hno
    refine ⟨_, s.curHeapPos, u32_eq ?_, h.appendNode_ok hroom'⟩
    omega

end Tiled

end WordOS.Memory
