import WordOS.Memory.HeapRuns

/-! What `rekalloc` does to a tiled heap whose blocks are linked both ways. -/

namespace WordOS.Memory

open Machine Lib.Bytes Lib.LinkedList

/-- The `prev` links lead through the blocks from the last to the first. -/
def Coherent (m : Mem) (bs : List ℕ) : Prop := Chain (fun p => (load m p).prev) (bs.getLastD 0) bs.reverse

/-- The size of the block that `kalloc` gives for `size` bytes. -/
def granted (m : Mem) (size : ℕ) (bs : List ℕ) : ℕ :=
  match bs.find? (fun p => decide (Fits m size p)) with
  | some p => if (load m p).size - size ≥ HEAP_MIN_SPLIT_SIZE then size else (load m p).size
  | none => size

abbrev NextFree (m : Mem) (p : ℕ) : Prop := (load m p).next ≠ 0 ∧ (load m (load m p).next).status = HEAP_FREE

/-- The block at `p` of the blocks `bs` became the one in front of `r`, of at least `n` bytes. -/
structure Reallocated (s t : Heap) (bs bs' : List ℕ) (p r n : ℕ) : Prop where
  walk : Seg (stride t.mem) t.heapStart bs' t.curHeapPos
  ne_zero : r ≠ 0
  live : ∃ b ∈ bs', r = b + SIZEOF_MEM_HEADER ∧ (load t.mem b).status = HEAP_USED ∧ n ≤ (load t.mem b).size
  copied : ∀ i < min (load s.mem p).size n, t.mem (r + i) = s.mem (p + SIZEOF_MEM_HEADER + i)
  keeps : ∀ q ∈ bs, q ≠ p → (load s.mem q).status = HEAP_USED →
    q ∈ bs' ∧ r ≠ q + SIZEOF_MEM_HEADER ∧ Kept s.mem t.mem q

lemma Coherent.prev_eq {m : Mem} {l l' : List ℕ} {p : ℕ} (h : Coherent m (l ++ p :: l')) :
    (load m p).prev = l.getLastD 0 := by
  have h' : Chain (fun p => (load m p).prev) ((l ++ p :: l').getLastD 0) (l'.reverse ++ p :: l.reverse) := by
    simpa [Coherent] using h
  have hn := Chain.next_eq h'
  rw [hn]
  rcases List.eq_nil_or_concat l with rfl | ⟨l, r, rfl⟩
  · rfl
  · simp

lemma alignSize_lt {n : ℕ} : alignSize n < 2 ^ 32 := by
  have : u32 (0x20 - 1 + n) < 2 ^ 32 := Nat.mod_lt _ (by decide)
  rw [alignSize]
  omega

lemma alignSize_alignSize {n : ℕ} : alignSize (alignSize n) = alignSize n := by
  have hlt := alignSize_lt (n := n)
  have hd : alignSize n % 0x20 = 0 := by
    rw [alignSize]
    omega
  rw [alignSize, u32_eq (by omega)]
  omega

variable {m : Mem} {p q size : ℕ}

/-- `node` grows over the whole block behind it; its last 16 bytes read as an empty free block. -/
lemma growNode_whole (hq : stride m p = q) (h32 : stride m q < 2 ^ 32) (hs : (load m q).size + (load m p).size = size) :
    load (growNode m p q size) p = { load m p with size := size, next := (load m q).next } ∧
    stride (growNode m p q size) (p + SIZEOF_MEM_HEADER + size) = stride m q ∧
    ∀ a, a < p ∨ p + SIZEOF_MEM_HEADER ≤ a ∧ a < q ∨ stride m q ≤ a → growNode m p q size a = m a := by
  have hpq : Apart p q := .inl (hq ▸ header_le_stride m p)
  have hps := hq
  rw [stride] at hps h32
  have hsize : u32 size = size := u32_eq (by omega)
  set m' := setNext (setSize m p size) p (load m q).next with hm'
  have hg : growNode m p q size = memset m' q 0 ((load m q).size + SIZEOF_MEM_HEADER) := by
    rw [growNode]
    simp only [load_setSize_of_apart hpq, load_setNext_of_apart hpq]
    rw [if_pos (by rw [hs, hsize]), u32_eq (by omega)]
  have ho : Only m m' [p] := only_setSize.trans only_setNext
  rw [hg]
  refine ⟨?_, ?_, fun a ha => ?_⟩
  · have hp : load m' p = { load m p with size := size, next := (load m q).next } := by
      rw [hm', load_setNext, load_setSize, hsize, (u32_load m q).2.2]
    rw [← hp]
    exact load_congr fun i hi => memset_of_outside (by omega)
  · have hz : (load (memset m' q 0 ((load m q).size + SIZEOF_MEM_HEADER)) (p + SIZEOF_MEM_HEADER + size)).size = 0 := by
      refine (read32_congr (m := fun _ => 0) fun i hi => memset_inside ?_ ?_ :
        read32 _ (p + SIZEOF_MEM_HEADER + size) = 0)
      · omega
      · rw [SIZEOF_MEM_HEADER] at *
        omega
    rw [stride, stride, hz]
    omega
  · rw [stride] at ha
    have hout : a < q ∨ q + ((load m q).size + SIZEOF_MEM_HEADER) ≤ a := by omega
    have hout' : a < p ∨ p + SIZEOF_MEM_HEADER ≤ a := by omega
    rw [memset_of_outside hout]
    exact ho a (by simpa using hout')

/-- The boundary between `node` and the free block behind it moves; the byte written first must
not lie in the size of that block, which is read after it. -/
lemma growNode_writes (hq : stride m p = q) (h32 : stride m q < 2 ^ 32) (hs : size < (load m q).size + (load m p).size)
    (hover : (load m p).size ≤ size ∨ size + 4 < (load m p).size) {z v : ℕ} (hz : z = p + SIZEOF_MEM_HEADER + size)
    (hv : v = (load m q).size + (load m p).size - size) {m' : Mem}
    (hm' : m' = setSize (setStatus (setSize m p size) z HEAP_FREE) z v) :
    growNode m p q size = setNext (setPrev (setNext m' z (load m' (load m' p).next).next) z p) p z ∧
      Only m (growNode m p q size) [p, z] := by
  have hpq : Apart p q := .inl (hq ▸ header_le_stride m p)
  have hps := hq
  rw [stride] at hps h32
  have hsize : u32 size = size := u32_eq (by omega)
  have hsum : u32 ((load m q).size + (load m p).size) = (load m q).size + (load m p).size := u32_eq (by omega)
  have hnew : u32 (p + size + SIZEOF_MEM_HEADER) = z := by
    rw [u32_eq (by omega)]
    omega
  have hrest : u32 ((load m q).size + (load m p).size + 2 ^ 32 - size) = v := by
    have hlt : (load m q).size + (load m p).size - size < 2 ^ 32 := by omega
    rw [hv, u32]
    omega
  have hqsize : (load (setStatus (setSize m p size) z HEAP_FREE) q).size = (load m q).size := by
    refine Eq.trans (read32_congr fun i hi => Function.update_of_ne ?_ ..)
      (congrArg MemHeader.size (load_setSize_of_apart hpq))
    rw [SIZEOF_MEM_HEADER] at *
    omega
  have hg : growNode m p q size = setNext (setPrev (setNext m' z (load m' (load m' p).next).next) z p) p z := by
    rw [growNode]
    simp only [load_setSize_of_apart hpq, load_setSize, hsize, hsum, if_neg hs.ne', hnew, hqsize, hrest, ← hm']
  have hzs : [z] ⊆ [p, z] := by simp
  have hpss : [p] ⊆ [p, z] := by simp
  refine ⟨hg, ?_⟩
  rw [hg, hm']
  exact (((((only_setSize.mono hpss).trans (only_setStatus.mono hzs)).trans (only_setSize.mono hzs)).trans
    (only_setNext.mono hzs)).trans (only_setPrev.mono hzs)).trans (only_setNext.mono hpss)

lemma growNode_split (hq : stride m p = q) (h32 : stride m q < 2 ^ 32) (hs : size < (load m q).size + (load m p).size)
    (hover : (load m p).size ≤ size ∨ size + 4 < (load m p).size) :
    (load (growNode m p q size) p).size = size ∧ (load (growNode m p q size) p).status = (load m p).status ∧
    stride (growNode m p q size) (p + SIZEOF_MEM_HEADER + size) = stride m q ∧
    ∀ a, a < p ∨ p + SIZEOF_MEM_HEADER ≤ a ∧ a < p + SIZEOF_MEM_HEADER + size ∨ stride m q ≤ a →
      growNode m p q size a = m a := by
  obtain ⟨hg, ho⟩ := growNode_writes hq h32 hs hover rfl rfl rfl
  have hps := hq
  rw [stride] at hps h32
  have hsize : u32 size = size := u32_eq (by omega)
  set z := p + SIZEOF_MEM_HEADER + size with hz
  have hpz : Apart p z := .inl (by omega)
  have hzp := hpz.symm
  set v := (load m q).size + (load m p).size - size with hv
  have hv32 : u32 v = v := u32_eq (by omega)
  refine ⟨?_, ?_, ?_, fun a ha => ho a ?_⟩
  · simp only [hg, load_setNext, load_setPrev_of_apart hzp, load_setNext_of_apart hzp, load_setSize_of_apart hzp,
      load_setStatus_of_apart hzp, load_setSize, hsize]
  · simp only [hg, load_setNext, load_setPrev_of_apart hzp, load_setNext_of_apart hzp, load_setSize_of_apart hzp,
      load_setStatus_of_apart hzp, load_setSize]
  · have hzsize : (load (growNode m p q size) z).size = v := by
      simp only [hg, load_setNext_of_apart hpz, load_setPrev, load_setNext, load_setSize, hv32]
    rw [stride, stride, hzsize]
    omega
  · simp only [List.mem_cons, List.not_mem_nil, or_false, forall_eq_or_imp, forall_eq]
    rw [stride] at ha
    omega

lemma growNode_bytes (hq : stride m p = q) (h32 : stride m q < 2 ^ 32) (hs : size ≤ (load m q).size + (load m p).size)
    (hover : (load m p).size ≤ size ∨ size + 4 < (load m p).size) :
    (load (growNode m p q size) p).size = size ∧ (load (growNode m p q size) p).status = (load m p).status ∧
    stride (growNode m p q size) (p + SIZEOF_MEM_HEADER + size) = stride m q ∧
    ∀ a, a < p ∨ p + SIZEOF_MEM_HEADER ≤ a ∧ a < q ∧ a < p + SIZEOF_MEM_HEADER + size ∨ stride m q ≤ a →
      growNode m p q size a = m a := by
  rcases Nat.lt_or_eq_of_le hs with hs | hs
  · obtain ⟨h₁, h₂, h₃, h₄⟩ := growNode_split hq h32 hs hover
    exact ⟨h₁, h₂, h₃, fun a ha => h₄ a (by tauto)⟩
  · obtain ⟨h₁, h₂, h₃⟩ := growNode_whole hq h32 hs.symm
    exact ⟨by rw [h₁], by rw [h₁], h₂, fun a ha => h₃ a (by tauto)⟩

namespace Tiled

variable {s t : Heap} {l l' bs : List ℕ} {n fuel : ℕ}

lemma growNode_ok (h : Tiled s (l ++ p :: q :: l')) (hu : (load s.mem p).status = HEAP_USED)
    (hfree : (load s.mem q).status = HEAP_FREE) (hs : size ≤ (load s.mem q).size + (load s.mem p).size) (hn : n ≤ size)
    (hover : (load s.mem p).size ≤ size ∨ size + 4 < (load s.mem p).size) :
    Reallocated s { s with mem := growNode s.mem p q size } (l ++ p :: q :: l')
      (l ++ p :: (p + SIZEOF_MEM_HEADER + size) :: l') p (p + SIZEOF_MEM_HEADER) n := by
  have hq : stride s.mem p = q := h.strides.stride_eq
  have hqs := lt_stride s.mem q
  obtain ⟨hsize, hstatus, hz, hbytes⟩ := growNode_bytes hq (h.strides.lt_two_pow (p := q) (by simp)) hs hover
  have h' : Tiled s (l ++ [p] ++ q :: l') := by simpa using h
  have hout : ∀ r ∈ l ++ l', stride s.mem r ≤ p ∨ stride s.mem q ≤ r := by
    intro r hr
    rcases List.mem_append.mp hr with hr | hr
    · exact .inl (h.strides.before hr)
    · exact .inr (h'.strides.behind hr)
  have hkept : ∀ r ∈ l ++ l', Kept s.mem (growNode s.mem p q size) r := by
    intro r hr
    have hr' := header_le_stride s.mem r
    have hload : load (growNode s.mem p q size) r = load s.mem r :=
      load_congr fun i hi => hbytes _ (by rcases hout r hr with ho | ho <;> omega)
    exact ⟨by rw [hload], by rw [hload], fun a ha hb => hbytes a (by rcases hout r hr with ho | ho <;> omega)⟩
  refine ⟨?_, ?_, ⟨p, by simp, rfl, hstatus.trans hu, hsize.symm ▸ hn⟩, fun i hi => ?_, fun r hr hrp hru => ?_⟩
  · obtain ⟨e, hl, rfl, hp0, hq', _, hl'⟩ := seg_append.mp h.walk
    refine seg_append.mpr ⟨e, hl.congr fun r hr => (hkept r (by simp [hr])).stride_eq, rfl, hp0, ?_, by omega, ?_⟩
    · rw [stride, hsize]
    · rw [hz]
      exact hl'.congr fun r hr => (hkept r (by simp [hr])).stride_eq
  · rw [SIZEOF_MEM_HEADER]
    omega
  · rw [stride] at hq
    exact hbytes _ (by omega)
  · have hrq : r ≠ q := by
      rintro rfl
      rw [hfree] at hru
      exact absurd hru (by decide)
    have hr' : r ∈ l ++ l' := mem_of_split (mem_of_split hr hrp) hrq
    exact ⟨mem_split (mem_split hr'), by omega, hkept r hr'⟩

lemma kalloc_granted (h : Tiled s bs) (hr : Room s (alignSize n)) (hf : bs.length < fuel) :
    ∃ b t bs', kalloc fuel s n = .ok (b + SIZEOF_MEM_HEADER, t) ∧ Allocated s t bs bs' (alignSize n) b ∧
      (load t.mem b).size = granted s.mem (alignSize n) bs ∧
      ∀ q ∈ bs, q ≠ b → (load t.mem q).prev = (load s.mem q).prev := by
  obtain ⟨r, t, hk, hall⟩ := h.kalloc_ok (.inl hf)
  obtain ⟨bs', b, rfl, ha⟩ := hall hr
  refine ⟨b, t, bs', hk, ha, ?_⟩
  rcases h.strides.kalloc_ok (n := n) (.inl hf) with ⟨l, p, l', rfl, hno, hfit, hok⟩ | ⟨hno, hok⟩
  · obtain ⟨hbp, rfl⟩ := Prod.mk.injEq .. ▸ Except.ok.inj (hok.symm.trans hk)
    obtain rfl : p = b := by omega
    have hfind : (l ++ p :: l').find? (fun p => decide (Fits s.mem (alignSize n) p)) = some p := by
      rw [List.find?_append, List.find?_eq_none.mpr (by simpa using hno), Option.none_or, List.find?_cons_of_pos]
      exact decide_eq_true hfit
    obtain ⟨hsize, hload⟩ : (load (takeNode s.mem p (l.getLastD 0) (alignSize n)) p).size = _ ∧ _ := h.strides.takeNode_load
    refine ⟨by rw [granted, hfind, hsize], fun q hq hqp => ?_⟩
    rw [hload q (mem_of_split hq hqp)]
  · obtain ⟨hb, rfl⟩ := Prod.mk.injEq .. ▸ Except.ok.inj (hok.symm.trans hk)
    have hc32 : s.curHeapPos < 2 ^ 32 := by
      have := h.room
      have := h.region
      omega
    obtain rfl : s.curHeapPos = b := by
      rw [u32, SIZEOF_MEM_HEADER] at hb
      omega
    obtain ⟨hsize, hload⟩ : (load (appendNode s (bs.getLastD 0) (alignSize n)).mem s.curHeapPos).size = _ ∧ _ :=
      h.strides.appendNode_load hc32
    have hfind : bs.find? (fun p => decide (Fits s.mem (alignSize n) p)) = none :=
      List.find?_eq_none.mpr (by simpa using hno)
    refine ⟨by rw [granted, hfind, hsize, u32_eq alignSize_lt], fun q hq _ => ?_⟩
    obtain ⟨k, hk, -⟩ := hload q hq
    rw [hk]

/-- After the allocation of `b` another block's back link leads to the block before, or to a used one. -/
lemma back_of_allocated {b : ℕ} (h : Tiled s bs) (hc : Coherent s.mem bs) (ha : Allocated s t bs (l ++ p :: l') n b) (hp : p ∈ bs)
    (hload : ∀ q ∈ l ++ p :: l', load m q = load t.mem q) (hprev : (load t.mem p).prev = (load s.mem p).prev)
    (h0 : (load m p).prev ≠ 0) (hfree : (load m (load m p).prev).status = HEAP_FREE) : ∃ l₀, l = l₀ ++ [(load m p).prev] := by
  rw [hload p (by simp), hprev] at h0 hfree ⊢
  obtain ⟨l₁, l₂, rfl⟩ := List.append_of_mem hp
  rw [hc.prev_eq] at h0 hfree ⊢
  rcases List.eq_nil_or_concat l₁ with rfl | ⟨l₁, q, rfl⟩
  · exact (h0 rfl).elim
  · rw [List.concat_eq_append] at *
    rw [List.getLastD_concat] at hfree ⊢
    have hq : q ∈ l₁ ++ [q] ++ p :: l₂ := by simp
    have hqb : q ≠ b := by
      rintro rfl
      rw [hload q ha.mem, ha.used] at hfree
      exact absurd hfree (by decide)
    refine ha.tiled.strides.before_of_stride (ha.keeps q hq).1 ?_
    rw [((ha.keeps q hq).2 hqb).stride_eq]
    have h' : Tiled s (l₁ ++ q :: p :: l₂) := by simpa using h
    exact h'.strides.stride_eq

lemma moveNode_ok (h : Tiled s bs) (hc : Coherent s.mem bs) (hp : p ∈ bs) (hu : (load s.mem p).status = HEAP_USED)
    (hr : Room s (alignSize n)) (hn : n ≤ alignSize n) (hf : bs.length < fuel)
    (hfit : (load s.mem p).size ≤ granted s.mem (alignSize n) bs) :
    ∃ r t bs', moveNode fuel s (p + SIZEOF_MEM_HEADER) (alignSize n) = .ok (r, t) ∧ Reallocated s t bs bs' p r n := by
  rw [← alignSize_alignSize] at hr hfit
  obtain ⟨b, t, bs', hk, ha, hsize, hprev⟩ := h.kalloc_granted hr hf
  have hused : ∀ q ∈ bs, (load s.mem q).status = HEAP_USED → q ≠ b := by
    rintro q hq hq' rfl
    rw [ha.free hq] at hq'
    exact absurd hq' (by decide)
  have hpb := hused p hp hu
  obtain ⟨hp', hkp⟩ := ha.keeps p hp
  have hkp := hkp hpb
  have hsp := hkp.stride_eq
  have hd := ha.tiled.strides.disjoint hp' ha.mem hpb
  -- the payload of `p` fits that of `b`
  set m := memcpy t.mem (b + SIZEOF_MEM_HEADER) (p + SIZEOF_MEM_HEADER) (load s.mem p).size with hm
  have hmove : moveNode fuel s (p + SIZEOF_MEM_HEADER) (alignSize n) =
      .ok (b + SIZEOF_MEM_HEADER, kfree { t with mem := m } (p + SIZEOF_MEM_HEADER)) := by
    rw [moveNode, hk, ok_bind, Nat.add_sub_cancel, hm, ← hkp.size]
    rfl
  have hsb : b + SIZEOF_MEM_HEADER + (load s.mem p).size ≤ stride t.mem b := by
    rw [stride, hsize]
    omega
  obtain ⟨ht, hload, hkm⟩ := ha.tiled.fill (m := m) ha.mem fun a ha => memcpy_of_outside (by omega)
  have hcopied : ∀ i < (load s.mem p).size, m (b + SIZEOF_MEM_HEADER + i) = s.mem (p + SIZEOF_MEM_HEADER + i) := by
    intro i hi
    rw [hm, memcpy_copied ?_ hi]
    · exact hkp.payload _ (by omega) (by rw [stride]; omega)
    · rw [hsp, stride] at hd
      rcases hd with hd | hd
      · exact .inr (by omega)
      · exact .inl (by omega)
  have hkeeps : ∀ q ∈ bs, q ≠ b → Kept s.mem m q := fun q hq hqb =>
    ((ha.keeps q hq).2 hqb).trans (hkm q (ha.keeps q hq).1 hqb)
  obtain ⟨l, l', rfl⟩ := List.append_of_mem hp'
  have hback := h.back_of_allocated hc ha hp hload (hprev p hp hpb)
  obtain ⟨bs'', hfr⟩ := ht.kfree_ok hback
  have hbm := hfr.keeps b ha.mem hpb.symm ((congrArg MemHeader.status (hload b ha.mem)).trans ha.used)
  refine ⟨_, _, bs'', hmove, hfr.tiled.walk, by rw [SIZEOF_MEM_HEADER]; omega, ⟨b, hbm.1, rfl, ?_, ?_⟩, ?_, ?_⟩
  · rw [hbm.2.status, hload b ha.mem, ha.used]
  · rw [hbm.2.size, hload b ha.mem]
    have := ha.size_le
    rw [alignSize_alignSize] at this
    exact hn.trans this
  · intro i hi
    rw [hbm.2.payload _ (by omega) ?_]
    · exact hcopied i (by omega)
    · rw [stride, hload b ha.mem, ← stride]
      omega
  · intro q hq hqp hqu
    have hqb := hused q hq hqu
    obtain ⟨hq', hk'⟩ := hfr.keeps q (ha.keeps q hq).1 hqp ((hkeeps q hq hqb).status.trans hqu)
    exact ⟨hq', by omega, (hkeeps q hq hqb).trans hk'⟩

end Tiled

lemma rekalloc_move {s : Heap} {n fuel : ℕ} (h : ¬ NextFree s.mem p) :
    rekalloc fuel s (p + SIZEOF_MEM_HEADER) n = moveNode fuel s (p + SIZEOF_MEM_HEADER) (alignSize n) := by
  rw [rekalloc, Nat.add_sub_cancel]
  by_cases h0 : (load s.mem p).next = 0
  · rw [if_pos h0]
  · rw [if_neg h0, if_neg fun hf => h ⟨h0, hf⟩]

/-- The move copies no more than the new block holds, and a block that shrinks does so by enough
for its rest to lie clear of the size of the block behind. -/
def Clear (m : Mem) (bs : List ℕ) (p size : ℕ) : Prop :=
  if NextFree m p then (load m p).size ≤ size ∨ size + 4 < (load m p).size
  else (load m p).size ≤ granted m size bs

theorem rekalloc_iff {s : Heap} {bs : List ℕ} {p n fuel : ℕ} (h : Tiled s bs) (hc : Coherent s.mem bs) (hp : p ∈ bs)
    (hu : (load s.mem p).status = HEAP_USED) (hn : 0x20 - 1 + n < 2 ^ 32) (hr : Room s (alignSize n))
    (hf : bs.length < fuel) (hclear : Clear s.mem bs p (alignSize n)) :
    (∃ r t bs', rekalloc fuel s (p + SIZEOF_MEM_HEADER) n = .ok (r, t) ∧ Reallocated s t bs bs' p r n) ↔
      (NextFree s.mem p → alignSize n ≤ (load s.mem (load s.mem p).next).size + (load s.mem p).size) := by
  have hle := HeapRuns.le_alignSize hn
  obtain ⟨l, l', rfl⟩ := List.append_of_mem hp
  have hnext := h.next_eq
  by_cases hfree : NextFree s.mem p
  · rw [Clear, if_pos hfree] at hclear
    obtain ⟨h0, hf'⟩ := hfree
    rw [rekalloc, Nat.add_sub_cancel, if_neg h0, if_pos hf']
    rw [hnext] at h0 hf' ⊢
    cases l' with
    | nil => exact (h0 rfl).elim
    | cons q l' =>
      rw [List.headD_cons] at *
      have hq := h.strides.stride_eq
      have hp32 : u32 (p + SIZEOF_MEM_HEADER) = p + SIZEOF_MEM_HEADER :=
        u32_eq ((header_le_stride ..).trans_lt (h.strides.lt_two_pow (by simp)))
      have hsum : u32 ((load s.mem q).size + (load s.mem p).size) = (load s.mem q).size + (load s.mem p).size := by
        have h32 := h.strides.lt_two_pow (p := q) (by simp)
        rw [List.headD_cons, stride] at hq
        rw [stride] at h32
        exact u32_eq (by omega)
      rw [hsum]
      refine ⟨fun hre _ => ?_, fun hs => ?_⟩
      · obtain ⟨r, t, bs', hok, hre⟩ := hre
        by_contra hs
        rw [if_neg hs] at hok
        exact hre.ne_zero (Prod.mk.injEq .. ▸ Except.ok.inj hok).1.symm
      · have hs := hs (by rw [NextFree, hnext]; exact ⟨h0, hf'⟩)
        rw [if_pos hs, hp32]
        exact ⟨_, _, _, rfl, h.growNode_ok hu hf' hs hle hclear⟩
  · rw [Clear, if_neg hfree] at hclear
    rw [rekalloc_move hfree]
    obtain ⟨r, t, bs', hok, hre⟩ := h.moveNode_ok hc hp hu hr hle hf hclear
    exact ⟨fun _ hfree' => (hfree hfree').elim, fun _ => ⟨r, t, bs', hok, hre⟩⟩

/-- The only block of the heap moves to its end. -/
theorem rekalloc_iff_last : ∃ s, kalloc 1 HeapRuns.start.heap 32 = .ok (4112, s) ∧
    ∃ r t bs', rekalloc 2 s 4112 64 = .ok (r, t) ∧ Reallocated s t [4096] bs' 4096 r 64 := by
  obtain ⟨⟨p, s⟩, hs, hl⟩ := exists_of_toOption_map (x := kalloc 1 HeapRuns.start.heap 32)
    (g := fun q => (q.1, q.2.heapStart, q.2.curHeapPos, load q.2.mem 4096))
    (c := (4112, 4096, 4144, ⟨32, HEAP_USED, 0, 0⟩)) (by decide)
  simp only [Prod.mk.injEq] at hl
  obtain ⟨rfl, hstart, hpos, hload⟩ := hl
  have h₁ : HeapRuns.SafeStep HeapRuns.start (.kalloc 32) ⟨s, [4112]⟩ := ⟨.kalloc hs, .inr (by decide)⟩
  obtain ⟨bs, hw⟩ := HeapRuns.run_whole (m := fun _ => 0) (by decide) (by decide) (Lib.Runs.Run.single h₁)
  have ht : Tiled s bs := hw.tiled
  obtain rfl : bs = [4096] := by
    have hwalk := ht.walk
    rw [hstart, hpos] at hwalk
    obtain ⟨l, rfl, hl⟩ := hwalk.cons_of_ne (by decide)
    rw [stride, hload] at hl
    rw [hl.eq_nil (lt_stride _)]
  have hfree : ¬ NextFree s.mem 4096 := fun h => h.1 (by rw [hload])
  refine ⟨s, hs, (rekalloc_iff ht ⟨rfl, by decide, congrArg MemHeader.prev hload⟩ (by simp) (by rw [hload]) (by decide)
    (.inr (by rw [hstart, hpos]; decide)) (by decide) ?_).mpr fun h => (hfree h).elim⟩
  have hnone : granted s.mem (alignSize 64) [4096] = alignSize 64 := by
    rw [granted, List.find?_eq_none.mpr (by simp [hload, HEAP_USED, HEAP_FREE])]
  rw [Clear, if_neg hfree, hnone, hload]
  decide

/-- The free block behind is too small: the null pointer comes back. -/
theorem rekalloc_null : ∃ s, Lib.Runs.Run HeapRuns.Step HeapRuns.start [.kalloc 32, .kalloc 32, .kfree 4160] s ∧
    4112 ∈ s.live ∧ Tiled s.heap [4096, 4144] ∧ Coherent s.heap.mem [4096, 4144] ∧
    (load s.heap.mem 4096).status = HEAP_USED ∧ Room s.heap (alignSize 256) ∧
    ¬ ∃ r t bs', rekalloc 3 s.heap 4112 256 = .ok (r, t) ∧ Reallocated s.heap t [4096, 4144] bs' 4096 r 256 := by
  obtain ⟨⟨s, t, u⟩, hs, hl⟩ := exists_of_toOption_map
    (x := HeapRuns.perform 2 HeapRuns.start (.kalloc 32) >>= fun s => HeapRuns.perform 2 s (.kalloc 32) >>= fun t =>
      HeapRuns.perform 2 t (.kfree 4160) >>= fun u => .ok (s, t, u))
    (g := fun (s, t, u) => decide ((s.heap.heapStart = 4096 ∧ s.heap.curHeapPos = 4144) ∧
      (load t.heap.mem (HeapRuns.headerOf t 4160).prev).status = HEAP_USED ∧
      u.live = [4112] ∧ u.heap.heapStart = 4096 ∧ u.heap.curHeapPos = 4192 ∧
      load u.heap.mem 4096 = ⟨32, HEAP_USED, 0, 4144⟩ ∧ load u.heap.mem 4144 = ⟨32, HEAP_FREE, 4096, 0⟩))
    (c := true) (by decide)
  obtain ⟨s', h₁, h⟩ := bind_eq_ok.mp hs
  obtain ⟨t', h₂, h⟩ := bind_eq_ok.mp h
  obtain ⟨u', h₃, he⟩ := bind_eq_ok.mp h
  simp only [Except.ok.injEq, Prod.mk.injEq] at he
  obtain ⟨rfl, rfl, rfl⟩ := he
  obtain ⟨⟨hstart, hpos⟩, hback, hlive, hstart', hpos', hload, hload'⟩ := of_decide_eq_true hl
  have hs₁ : HeapRuns.SafeStep HeapRuns.start (.kalloc 32) s' := ⟨HeapRuns.perform_step h₁, .inr (by decide)⟩
  have hs₂ : HeapRuns.SafeStep s' (.kalloc 32) t' := ⟨HeapRuns.perform_step h₂, .inr (by rw [hpos, hstart]; decide)⟩
  have hs₃ : HeapRuns.SafeStep t' (.kfree 4160) u' := ⟨HeapRuns.perform_step h₃, fun _ h => by
    rw [hback] at h
    exact absurd h (by decide)⟩
  have hrun := ((Lib.Runs.Run.single hs₁).snoc hs₂).snoc hs₃
  obtain ⟨bs, hw⟩ := HeapRuns.run_whole (m := fun _ => 0) (by decide) (by decide) hrun
  have ht : Tiled u'.heap bs := hw.tiled
  obtain rfl : bs = [4096, 4144] := by
    have hwalk := ht.walk
    rw [hstart', hpos'] at hwalk
    obtain ⟨l, rfl, h₁⟩ := hwalk.cons_of_ne (by decide)
    rw [show stride u'.heap.mem 4096 = 4144 by rw [stride, hload]; rfl] at h₁
    obtain ⟨l, rfl, h₂⟩ := h₁.cons_of_ne (by decide)
    rw [show stride u'.heap.mem 4144 = 4192 by rw [stride, hload']; rfl] at h₂
    rw [h₂.eq_nil (lt_stride _)]
  have hc : Coherent u'.heap.mem [4096, 4144] :=
    ⟨rfl, by decide, congrArg MemHeader.prev hload', by decide, congrArg MemHeader.prev hload⟩
  have hroom : Room u'.heap (alignSize 256) := .inr (by rw [hstart', hpos']; decide)
  have hnull : rekalloc 3 u'.heap 4112 256 = .ok (0, u'.heap) := by
    have hnode : 4112 - SIZEOF_MEM_HEADER = 4096 := rfl
    rw [rekalloc, hnode, hload, if_neg (by decide), hload', if_pos rfl, if_neg (by decide)]
  refine ⟨u', hrun.mono fun _ _ _ h => h.1, by simp [hlive], ht, hc, by rw [hload], hroom, fun hre => ?_⟩
  obtain ⟨r, t, bs', hok, hre⟩ := hre
  rw [hnull] at hok
  exact hre.ne_zero (Prod.mk.injEq .. ▸ Except.ok.inj hok).1.symm

end WordOS.Memory
