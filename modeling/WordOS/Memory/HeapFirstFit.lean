import WordOS.Memory.HeapStrides

/-! `kalloc` is first fit, on every heap whose blocks tile it. -/

namespace WordOS.Memory

open Machine Lib.Bytes Lib.LinkedList

/-- The block `p` is the first of `bs` that fits, or there is none and it is new; the blocks are then `bs'`. -/
structure FirstFit (s t : Heap) (bs bs' : List ℕ) (size p : ℕ) : Prop where
  strides : Strides t bs'
  start : t.heapStart = s.heapStart
  mem : p ∈ bs'
  used : (load t.mem p).status = HEAP_USED
  size_le : size ≤ (load t.mem p).size
  first : p ∈ bs ∧ Fits s.mem size p ∧ (∀ q ∈ bs, q < p → ¬ Fits s.mem size q) ∧ t.curHeapPos = s.curHeapPos ∨
    p = s.curHeapPos ∧ (∀ q ∈ bs, ¬ Fits s.mem size q) ∧ bs' = bs ++ [p]
  keeps : ∀ q ∈ bs, q ∈ bs' ∧ ((load s.mem q).status = HEAP_USED → Kept s.mem t.mem q)

namespace Strides

variable {s : Heap} {l l' bs : List ℕ} {p past size fuel n : ℕ}

lemma takeNode_firstFit (past : ℕ) (h : Strides s (l ++ p :: l')) (hfit : Fits s.mem size p) (hno : ∀ q ∈ l, ¬ Fits s.mem size q) :
    ∃ bs', FirstFit s { s with mem := takeNode s.mem p past size } (l ++ p :: l') bs' size p := by
  obtain ⟨hsize, hload⟩ : (load (takeNode s.mem p past size) p).size = _ ∧ _ := h.takeNode_load
  have hfirst : ∀ q ∈ l ++ p :: l', q < p → ¬ Fits s.mem size q := by
    intro q hq hlt
    rcases List.mem_append.mp hq with hq | hq
    · exact hno q hq
    · exfalso
      rcases List.mem_cons.mp hq with rfl | hq
      · exact lt_irrefl _ hlt
      · have := h.behind hq
        have := lt_stride s.mem p
        omega
  have hother : ∀ q ∈ l ++ p :: l', (load s.mem q).status = HEAP_USED → q ∈ l ++ l' := by
    intro q hq hu
    have hne : q ≠ p := by
      rintro rfl
      rw [hfit.2] at hu
      exact absurd hu (by decide)
    exact mem_of_split hq hne
  rcases Nat.lt_or_ge ((load s.mem p).size - size) HEAP_MIN_SPLIT_SIZE with hsplit | hsplit
  · obtain ⟨hp, ho⟩ : load (takeNode s.mem p past size) p = _ ∧ _ := takeNode_whole hsplit
    rw [if_neg (Nat.not_le.mpr hsplit)] at hsize
    refine ⟨l ++ p :: l', ⟨h.start, h.below, h.walk.congr fun r hr => ?_⟩, rfl, by simp, by rw [hp], by rw [hsize]; exact hfit.1,
      .inl ⟨by simp, hfit, hfirst, rfl⟩, fun q hq => ⟨hq, fun hu => ?_⟩⟩
    · by_cases hrp : r = p
      · rw [hrp, stride, stride, hsize]
      · rw [stride, stride, hload r (mem_of_split hr hrp)]
    · have he := hload q (hother q hq hu)
      exact h.kept hq ho (by simp) (by rw [he]) (by rw [he])
  · set q := p + size + SIZEOF_MEM_HEADER with hq
    obtain ⟨hqs, hq32⟩ := h.split_le hsplit hq
    obtain ⟨hp, hpq, ho⟩ : load (takeNode s.mem p past size) p = _ ∧ _ := takeNode_split hsplit hq hq32
    have hsp : stride (takeNode s.mem p past size) p = q := by
      rw [stride, hp, hq]
      dsimp only
      omega
    have hsq : stride (takeNode s.mem p past size) q = stride s.mem p := by
      rw [stride, stride, hpq]
      rw [HEAP_MIN_SPLIT_SIZE] at hsplit
      dsimp only
      omega
    have hwalk : Seg (stride (takeNode s.mem p past size)) s.heapStart (l ++ p :: q :: l') s.curHeapPos := by
      refine h.walk.insert (by rw [hq, SIZEOF_MEM_HEADER]; omega) hsp hsq fun r hr => ?_
      rw [stride, stride, hload r hr]
    refine ⟨l ++ p :: q :: l', ⟨h.start, h.below, hwalk⟩, rfl, by simp, by rw [hp], by rw [hp],
      .inl ⟨by simp, hfit, hfirst, rfl⟩, fun r hr => ⟨?_, fun hu => ?_⟩⟩
    · exact mem_behind.mpr (.inr hr)
    · have hr' := hother r hr hu
      have he := hload r hr'
      have hrq : q + SIZEOF_MEM_HEADER ≤ r ∨ stride s.mem r ≤ q := by
        rcases List.mem_append.mp hr' with hr' | hr'
        · exact .inr ((h.before hr').trans (by omega))
        · exact .inl (hqs.trans (h.behind hr'))
      exact h.kept hr ho (by simp [hrq]) (by rw [he]) (by rw [he])

lemma appendNode_firstFit (h : Strides s bs) (hno : ∀ q ∈ bs, ¬ Fits s.mem size q)
    (htop : s.curHeapPos + size + SIZEOF_MEM_HEADER < 2 ^ 32) :
    FirstFit s (appendNode s (bs.getLastD 0) size) bs (bs ++ [s.curHeapPos]) size s.curHeapPos := by
  have hlast := h.last_le
  obtain ⟨hcur, -, ho, hpos⟩ : load (appendNode s (bs.getLastD 0) size).mem s.curHeapPos = _ ∧ _ :=
    Memory.appendNode_ok h.below fun h0 => .inl (hlast.resolve_left h0).2
  obtain ⟨hsize, hsame⟩ : (load (appendNode s (bs.getLastD 0) size).mem s.curHeapPos).size = _ ∧ _ := h.appendNode_load h.below
  have hu : u32 size = size := u32_eq (by omega)
  rw [hu] at hsize hpos
  rw [u32_eq htop] at hpos
  have hpos0 : s.curHeapPos ≠ 0 := by
    have := h.walk.start_le (lt_stride _)
    have := h.start
    omega
  have hwalk : Seg (stride (appendNode s (bs.getLastD 0) size).mem) s.heapStart (bs ++ [s.curHeapPos])
      (appendNode s (bs.getLastD 0) size).curHeapPos := by
    refine seg_snoc.mpr ⟨h.walk.congr fun r hr => ?_, hpos0, ?_⟩
    · obtain ⟨n, hn, -⟩ := hsame r hr
      rw [stride, stride, hn]
    · rw [stride, hsize, hpos]
      omega
  have hps : ∀ r ∈ s.curHeapPos :: (if bs.getLastD 0 = 0 then [] else [bs.getLastD 0]), r ∈ bs ∨ r = s.curHeapPos := by
    intro r hr
    rcases List.mem_cons.mp hr with rfl | hr
    · exact .inr rfl
    · split_ifs at hr with h0
      · cases hr
      · obtain rfl := List.mem_singleton.mp hr
        exact .inl (hlast.resolve_left h0).1
  refine ⟨⟨h.start, by omega, hwalk⟩, rfl, by simp, by rw [hcur], hsize.ge, .inr ⟨rfl, hno, rfl⟩,
    fun q hq => ⟨List.mem_append_left _ hq, fun _ => ?_⟩⟩
  obtain ⟨n, hn, -⟩ := hsame q hq
  refine h.kept hq ho (fun r hr => ?_) (by rw [hn]) (by rw [hn])
  rcases hps r hr with hr | rfl
  · exact .inl hr
  · exact .inr (.inr (h.stride_le hq))

lemma le_alignSize (h : 0x20 - 1 + n < 2 ^ 32) : n ≤ alignSize n := by
  rw [alignSize, u32_eq h]
  omega

end Strides

/-- `kalloc` returns, with the lowest free block that is large enough for the rounded size, or with a new block at the end
of the heap where there is none. -/
theorem kalloc_first_fit {s : Heap} {bs : List ℕ} {n fuel : ℕ} (h : Strides s bs) (hround : 0x20 - 1 + n < 2 ^ 32)
    (htop : s.curHeapPos + alignSize n + SIZEOF_MEM_HEADER < 2 ^ 32) (hf : bs.length < fuel) :
    ∃ p t bs', kalloc fuel s n = .ok (p + SIZEOF_MEM_HEADER, t) ∧ FirstFit s t bs bs' (alignSize n) p ∧
      n ≤ (load t.mem p).size := by
  have hle := Strides.le_alignSize hround
  rcases h.kalloc_ok (n := n) (.inl hf) with ⟨l, p, l', rfl, hno, hfit, hok⟩ | ⟨hno, hok⟩
  · obtain ⟨bs', ht⟩ := h.takeNode_firstFit (l.getLastD 0) hfit hno
    exact ⟨p, _, bs', hok, ht, hle.trans ht.size_le⟩
  · have ht := h.appendNode_firstFit hno htop
    rw [u32_eq (by omega)] at hok
    exact ⟨_, _, _, hok, ht, hle.trans ht.size_le⟩

/-- A used block of 32 bytes and a free one of 96. -/
def twoBlocks : Heap := ⟨setSize (setStatus (setSize (fun _ => 0) 0x1000 32) 0x1000 HEAP_USED) 0x1030 96, 0x1000, 0x10A0⟩

theorem kalloc_first_fit_two : ∃ p t bs', kalloc 3 twoBlocks 20 = .ok (p + SIZEOF_MEM_HEADER, t) ∧
    FirstFit twoBlocks t [0x1000, 0x1030] bs' (alignSize 20) p ∧ 20 ≤ (load t.mem p).size := by
  have h : Strides twoBlocks [0x1000, 0x1030] :=
    ⟨by decide, by decide, rfl, by decide, by decide, by decide,
      (by decide : stride twoBlocks.mem 0x1030 = 0x10A0)⟩
  exact kalloc_first_fit h (by decide) (by decide) (by decide)

end WordOS.Memory
