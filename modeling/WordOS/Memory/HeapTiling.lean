import WordOS.Memory.HeapStrides

/-! The tiling of the heap by blocks, along the strides and along the `next` links at once. -/

namespace WordOS.Memory

open Machine Lib.Bytes Lib.LinkedList

structure Tiled (s : Heap) (bs : List ℕ) : Prop where
  start : s.heapStart ≠ 0
  region : s.heapStart + HEAP_START_SIZE < 2 ^ 32
  room : s.curHeapPos ≤ s.heapStart + HEAP_START_SIZE
  walk : Seg (stride s.mem) s.heapStart bs s.curHeapPos
  links : Chain (fun p => (load s.mem p).next) (bs.headD 0) bs
  back : ∀ p ∈ bs, (load s.mem p).prev = 0 ∨ (load s.mem p).prev + SIZEOF_MEM_HEADER ≤ p
  blank : ∀ a, s.curHeapPos ≤ a → a < s.heapStart + HEAP_START_SIZE → s.mem a = 0

lemma Tiled.strides {s : Heap} {bs : List ℕ} (h : Tiled s bs) : Strides s bs :=
  ⟨h.start, by have := h.room; have := h.region; omega, h.walk⟩

lemma initHeap_tiled {m : Mem} {heapStart : ℕ} (h0 : heapStart ≠ 0) (h : heapStart + HEAP_START_SIZE < 2 ^ 32) :
    Tiled (initHeap m heapStart) [] :=
  ⟨h0, h, Nat.le_add_right .., rfl, rfl, by simp, fun _ ha hb => if_pos ⟨ha, hb⟩⟩

namespace Tiled

variable {s : Heap} {l l' bs : List ℕ} {p q : ℕ} {m : Mem}

lemma next_eq (h : Tiled s (l ++ p :: l')) : (load s.mem p).next = l'.headD 0 := by
  have hn := Chain.next_eq h.links
  exact hn

lemma blank_of_only {ps : List ℕ} (h : Tiled s bs) (ho : Only s.mem m ps) (hps : ∀ p ∈ ps, p + SIZEOF_MEM_HEADER ≤ s.curHeapPos)
    (a : ℕ) (ha : s.curHeapPos ≤ a) (hb : a < s.heapStart + HEAP_START_SIZE) : m a = 0 := by
  rw [ho a fun p hp => .inr ((hps p hp).trans ha)]
  exact h.blank a ha hb

lemma blank_next (h : Tiled s bs) (hr : s.curHeapPos + SIZEOF_MEM_HEADER ≤ s.heapStart + HEAP_START_SIZE) :
    (load s.mem s.curHeapPos).next = 0 := by
  refine (read32_congr (m := fun _ => 0) fun i hi => ?_ : read32 s.mem (s.curHeapPos + 12) = 0)
  rw [SIZEOF_MEM_HEADER] at hr
  exact h.blank _ (by omega) (by omega)

lemma congr {ps : List ℕ} (h : Tiled s bs) (ho : Only s.mem m ps) (hps : ∀ r ∈ ps, r ∈ bs)
    (hl : ∀ r ∈ bs, (load m r).size = (load s.mem r).size ∧ (load m r).next = (load s.mem r).next)
    (hb : ∀ r ∈ bs, (load m r).prev = (load s.mem r).prev ∨ (load m r).prev = 0 ∨
      (load m r).prev + SIZEOF_MEM_HEADER ≤ r) :
    Tiled { s with mem := m } bs := by
  refine ⟨h.start, h.region, h.room, h.walk.congr fun r hr => ?_, ?_, ?_, ?_⟩
  · rw [stride, stride, (hl r hr).1]
  · exact Seg.congr h.links fun r hr => (hl r hr).2
  · intro r hr
    rcases hb r hr with he | he
    · change (load m r).prev = 0 ∨ _
      rw [he]
      exact h.back r hr
    · exact he
  · exact h.blank_of_only ho fun r hr => h.strides.header_le (hps r hr)

lemma fill (h : Tiled s bs) (hp : p ∈ bs) (hm : ∀ a, a < p + SIZEOF_MEM_HEADER ∨ stride s.mem p ≤ a → m a = s.mem a) :
    Tiled { s with mem := m } bs ∧ (∀ q ∈ bs, load m q = load s.mem q) ∧ ∀ q ∈ bs, q ≠ p → Kept s.mem m q := by
  have hload : ∀ q ∈ bs, load m q = load s.mem q := by
    intro q hq
    refine load_congr fun i hi => hm _ ?_
    by_cases hqp : q = p
    · omega
    · have := header_le_stride s.mem q
      rcases h.strides.disjoint hp hq (Ne.symm hqp) with hd | hd <;> omega
  refine ⟨⟨h.start, h.region, h.room, ?_, ?_, ?_, ?_⟩, hload, fun q hq hqp => ⟨?_, ?_, ?_⟩⟩
  · refine h.walk.congr fun q hq => ?_
    rw [stride, stride, hload q hq]
  · exact Seg.congr h.links fun q hq => by rw [hload q hq]
  · intro q hq
    rw [hload q hq]
    exact h.back q hq
  · intro a ha hb
    exact (hm a (.inr ((h.strides.stride_le hp).trans ha))).trans (h.blank a ha hb)
  · rw [hload q hq]
  · rw [hload q hq]
  · intro a ha hb
    refine hm a ?_
    rcases h.strides.disjoint hp hq (Ne.symm hqp) with hd | hd <;> omega

lemma extend {t : Heap} {ps : List ℕ} (h : Tiled s bs) (hstart : t.heapStart = s.heapStart)
    (hpos : t.curHeapPos = stride t.mem s.curHeapPos) (hroom : t.curHeapPos ≤ s.heapStart + HEAP_START_SIZE)
    (ho : Only s.mem t.mem ps) (hps : ∀ r ∈ ps, r ∈ bs ++ [s.curHeapPos])
    (hn : (load t.mem s.curHeapPos).next = 0) (hb : (load t.mem s.curHeapPos).prev = bs.getLastD 0)
    (hsize : ∀ r ∈ bs, (load t.mem r).size = (load s.mem r).size ∧ (load t.mem r).prev = (load s.mem r).prev)
    (hlast : bs.getLastD 0 ≠ 0 → (load t.mem (bs.getLastD 0)).next = s.curHeapPos)
    (hnext : ∀ r ∈ bs, r ≠ bs.getLastD 0 → (load t.mem r).next = (load s.mem r).next) :
    Tiled t (bs ++ [s.curHeapPos]) := by
  have hpos0 : s.curHeapPos ≠ 0 := by
    have := h.walk.start_le (lt_stride _)
    have := h.start
    omega
  have hwalk : Seg (stride t.mem) t.heapStart (bs ++ [s.curHeapPos]) t.curHeapPos := by
    rw [hstart]
    refine seg_snoc.mpr ⟨h.walk.congr fun r hr => ?_, hpos0, hpos.symm⟩
    rw [stride, stride, (hsize r hr).1]
  refine ⟨hstart ▸ h.start, hstart ▸ h.region, hstart ▸ hroom, hwalk, ?_, ?_, ?_⟩
  · rcases List.eq_nil_or_concat bs with rfl | ⟨l, r, rfl⟩
    · exact ⟨rfl, hpos0, hn⟩
    · rw [List.concat_eq_append] at *
      rw [List.getLastD_concat] at *
      have hhead : (l ++ [r] ++ [s.curHeapPos]).headD 0 = (l ++ [r]).headD 0 := by cases l <;> rfl
      rw [hhead]
      refine Seg.extend h.links hpos0 (hlast (h.strides.ne_zero (by simp))) hn fun a ha => hnext a (by simp [ha]) ?_
      rintro rfl
      exact (List.nodup_append.mp h.strides.nodup).2.2 a ha a (by simp) rfl
  · intro r hr
    rcases List.mem_append.mp hr with hr | hr
    · rw [(hsize r hr).2]
      exact h.back r hr
    · obtain rfl := List.mem_singleton.mp hr
      rw [hb]
      exact h.strides.last_le.imp_right And.right
  · intro a ha hb
    have hcur := header_le_stride t.mem s.curHeapPos
    have hle : ∀ r ∈ ps, r + SIZEOF_MEM_HEADER ≤ t.curHeapPos := by
      intro r hr
      rcases List.mem_append.mp (hps r hr) with hr | hr
      · have := h.strides.header_le hr
        omega
      · obtain rfl := List.mem_singleton.mp hr
        omega
    rw [ho a fun r hr => .inr ((hle r hr).trans ha)]
    exact h.blank a (by omega) (by omega)

lemma fuse {ps : List ℕ} (h : Tiled s (l ++ p :: q :: l')) (ho : Only s.mem m ps) (hps : ∀ r ∈ ps, r ∈ l ++ p :: q :: l')
    (hs : stride m p = stride s.mem q) (hn : (load m p).next = (load s.mem q).next)
    (hl : ∀ r ∈ l ++ l', (load m r).size = (load s.mem r).size ∧ (load m r).next = (load s.mem r).next)
    (hb : ∀ r ∈ l ++ p :: l', (load m r).prev = (load s.mem r).prev ∨ (load m r).prev + SIZEOF_MEM_HEADER ≤ r) :
    Tiled { s with mem := m } (l ++ p :: l') := by
  refine ⟨h.start, h.region, h.room, ?_, ?_, ?_, ?_⟩
  · refine h.walk.remove hs fun r hr => ?_
    rw [stride, stride, (hl r hr).1]
  · have hhead : (l ++ p :: l').headD 0 = (l ++ p :: q :: l').headD 0 := by cases l <;> rfl
    rw [hhead]
    exact Seg.remove h.links hn fun r hr => (hl r hr).2
  · intro r hr
    rcases hb r hr with he | he
    · change (load m r).prev = 0 ∨ _
      rw [he]
      by_cases hrp : r = p
      · exact h.back r (by simp [hrp])
      · exact h.back r (mem_split (mem_split (mem_of_split hr hrp)))
    · exact .inr he
  · exact h.blank_of_only ho fun r hr => h.strides.header_le (hps r hr)

lemma divide (h : Tiled s (l ++ p :: l')) (ho : Only s.mem m [p, q]) (hq : stride m p = q)
    (hs : stride m q = stride s.mem p) (hp : (load m p).next = q) (hn : (load m q).next = (load s.mem p).next)
    (hb : (load m p).prev = 0 ∨ (load m p).prev + SIZEOF_MEM_HEADER ≤ p)
    (hbq : (load m q).prev = 0 ∨ (load m q).prev + SIZEOF_MEM_HEADER ≤ q) :
    Tiled { s with mem := m } (l ++ p :: q :: l') := by
  have hpq : p < q := hq ▸ lt_stride m p
  have hqs : q + SIZEOF_MEM_HEADER ≤ stride s.mem p := hs ▸ header_le_stride m q
  have hmem : ∀ {r}, r ∈ l ++ l' → load m r = load s.mem r := by
    intro r hr
    refine ho.load_eq fun a ha => ?_
    simp only [List.mem_cons, List.not_mem_nil, or_false] at ha
    rcases ha with rfl | rfl
    · exact h.strides.apart_within le_rfl (header_le_stride ..) hr
    · exact h.strides.apart_within hpq.le hqs hr
  refine ⟨h.start, h.region, h.room, ?_, ?_, ?_, ?_⟩
  · refine h.walk.insert (by omega) hq hs fun r hr => ?_
    rw [stride, stride, hmem hr]
  · have hhead : (l ++ p :: q :: l').headD 0 = (l ++ p :: l').headD 0 := by cases l <;> rfl
    rw [hhead]
    exact Seg.insert h.links (by omega) hp hn fun r hr => by rw [hmem hr]
  · intro r hr
    rcases mem_behind.mp hr with rfl | hr
    · exact hbq
    · by_cases hrp : r = p
      · rw [hrp]
        exact hb
      · change (load m r).prev = 0 ∨ (load m r).prev + _ ≤ r
        rw [hmem (mem_of_split hr hrp)]
        exact h.back r hr
  · refine h.blank_of_only ho fun r hr => ?_
    have := h.strides.stride_le (p := p) (by simp)
    simp only [List.mem_cons, List.not_mem_nil, or_false] at hr
    rcases hr with rfl | rfl <;> omega

end Tiled

end WordOS.Memory
