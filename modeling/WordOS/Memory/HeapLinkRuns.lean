import WordOS.Memory.HeapLinks

/-! Runs of `kalloc`, `kfree` and `rekalloc`, and the links between the blocks they leave. -/

namespace WordOS.Memory.HeapLinkRuns

open Machine Lib.Bytes Lib.LinkedList Lib.Runs HeapRuns

inductive Op
  | call (op : HeapRuns.Op)
  | rekalloc (p size : ℕ)

/-- A call of `rekalloc` is a step where it does not return the null pointer. -/
inductive Step : Clients → Op → Clients → Prop
  | call {s op t} : HeapRuns.Step s op t → Step s (.call op) t
  | rekalloc {s fuel p size r t} : p ∈ s.live → rekalloc fuel s.heap p size = .ok (r, t) → r ≠ 0 →
      Step s (.rekalloc p size) ⟨t, r :: s.live.erase p⟩

/-- `x` and `y` are neighbours on the walk from `heap_start`. -/
def Neighbours (s : Heap) (x y : ℕ) : Prop := Precedes s x y ∧ y < s.curHeapPos

/-- Neighbours are linked both ways, and not both free. -/
structure WellLinked (s : Heap) : Prop where
  next : ∀ x y, Neighbours s x y → (load s.mem x).next = y
  prev : ∀ x y, Neighbours s x y → (load s.mem y).prev = x
  merged : ∀ x y, Neighbours s x y → ¬ (Free s.mem x ∧ Free s.mem y)

/-- The free block that `kalloc` finds on its walk. -/
structure Found (s : Heap) (size p : ℕ) : Prop where
  walk : ∃ l, Seg (stride s.mem) s.heapStart l p ∧ ∀ q ∈ l, ¬ Fits s.mem size q
  below : p < s.curHeapPos
  fits : Fits s.mem size p

/-- `kalloc` finds a block that it does not split, or has room for a new one. -/
structure Undivided (s : Heap) (size : ℕ) : Prop where
  room : Room s size
  whole : ∀ p, Found s size p → (load s.mem p).size - size < HEAP_MIN_SPLIT_SIZE

/-- The block that `kalloc` gives for `size` bytes has room for `old` of them. -/
structure Holds (s : Heap) (size old : ℕ) : Prop where
  found : ∀ p, Found s size p → old ≤ (load s.mem p).size
  fresh : (∀ p, ¬ Found s size p) → old ≤ size

/-- A free block that a block of `old` bytes takes its growth from is not used up, and it is the last one, or nothing moves. -/
def Leaves (next : MemHeader) (old size : ℕ) : Prop := size ≠ next.size + old ∧ (next.next = 0 ∨ size = old)

/-- What an operation needs to keep the blocks linked. -/
def Keeps (s : Clients) : Op → Prop
  | .call (.kalloc size) => Undivided s.heap (alignSize size)
  | .call (.kfree p) => Relinks s.heap.mem (p - SIZEOF_MEM_HEADER)
  | .call (.write _ _) => True
  | .rekalloc p size =>
    if NextFree s.heap.mem (p - SIZEOF_MEM_HEADER) then
      Leaves (load s.heap.mem (headerOf s p).next) (headerOf s p).size (alignSize size)
    else Undivided s.heap (alignSize size) ∧ Holds s.heap (alignSize size) (headerOf s p).size

def KeptStep (s : Clients) (op : Op) (t : Clients) : Prop := Step s op t ∧ Keeps s op

structure Sound (s : Clients) (bs : List ℕ) : Prop where
  whole : Whole s bs
  coupled : Coupled s.heap.mem bs

lemma next_mem {s : Heap} {bs : List ℕ} {p : ℕ} (h : Tiled s bs) (hp : p ∈ bs) (h0 : (load s.mem p).next ≠ 0) :
    (load s.mem p).next ∈ bs := by
  obtain ⟨l, l', rfl⟩ := List.append_of_mem hp
  have hnext : (load s.mem p).next = l'.headD 0 := h.next_eq
  rw [hnext] at h0 ⊢
  cases l' with
  | nil => exact absurd rfl h0
  | cons q l' => simp

/-- A block before a used one is not followed by a free one. -/
lemma nextFree_of_taken {s : Heap} {l l' : List ℕ} {m : Mem} {b c : ℕ} (h : Tiled s (l ++ b :: l'))
    (hu : (load m b).status = HEAP_USED) (hload : ∀ r ∈ l ++ l', load m r = load s.mem r) (hc : c ∈ l ++ b :: l') (hcb : c ≠ b)
    (hfree : NextFree m c) : NextFree s.mem c := by
  obtain ⟨h0, hfree⟩ := hfree
  rw [hload c (mem_of_split hc hcb)] at h0 hfree
  refine ⟨h0, ?_⟩
  have hnb : (load s.mem c).next ≠ b := by
    intro hn
    rw [hn] at hfree
    exact not_free_of_used hu hfree
  rwa [hload _ (mem_of_split (next_mem h hc h0) hnb)] at hfree

lemma nextFree_of_appended {s : Heap} {bs : List ℕ} {size c : ℕ} (h : Tiled s bs)
    (ha : Allocated s (appendNode s (bs.getLastD 0) size) bs (bs ++ [s.curHeapPos]) size s.curHeapPos) (hc : c ∈ bs)
    (hfree : NextFree (appendNode s (bs.getLastD 0) size).mem c) : NextFree s.mem c := by
  have hregion := h.region
  have hbelow := h.strides.below
  obtain ⟨-, hload⟩ : (load (appendNode s (bs.getLastD 0) size).mem s.curHeapPos).size = _ ∧ _ := h.strides.appendNode_load hbelow
  obtain ⟨h0, hfree⟩ := hfree
  have hcur : (load (appendNode s (bs.getLastD 0) size).mem c).next ≠ s.curHeapPos := by
    intro hn
    rw [hn] at hfree
    exact not_free_of_used ha.used hfree
  have hn : (load (appendNode s (bs.getLastD 0) size).mem c).next ∈ bs :=
    (List.mem_append.mp (next_mem ha.tiled (ha.keeps c hc).1 h0)).resolve_right (by simpa using hcur)
  obtain ⟨k, hck, hsame⟩ := hload c hc
  -- the last block is the only one whose link changes, and it leads to the new block
  have hlast : c ≠ bs.getLastD 0 := by
    intro hc'
    apply hcur
    rcases List.eq_nil_or_concat bs with rfl | ⟨l, d, rfl⟩
    · cases hc
    · rw [List.concat_eq_append, List.getLastD_concat] at *
      have ht' := ha.tiled
      rw [hc', List.append_assoc] at *
      exact ht'.next_eq
  obtain ⟨k', hnk, -⟩ := hload _ hn
  rw [hck, hsame hlast] at h0 hfree hnk
  refine ⟨h0, ?_⟩
  rwa [hnk] at hfree

namespace Sound

variable {s t : Clients} {bs : List ℕ} {p q size fuel : ℕ} {u : Heap} {op : Op}

lemma wellLinked (h : Sound s bs) : WellLinked s.heap := by
  have hsplit : ∀ x y, Neighbours s.heap x y → ∃ l l', bs = l ++ x :: y :: l' := by
    rintro x y ⟨⟨⟨l, hl⟩, hs⟩, hy⟩
    have hlt : x < s.heap.curHeapPos := by
      have := lt_stride s.heap.mem x
      omega
    obtain ⟨l', rfl⟩ := h.whole.tiled.walk.split_of_lt (lt_stride _) hl hlt
    have hnext := h.whole.tiled.strides.stride_eq
    rw [hs] at hnext
    cases l' with
    | nil =>
      rw [List.headD_nil] at hnext
      omega
    | cons z l' =>
      obtain rfl : y = z := hnext
      exact ⟨l, l', rfl⟩
  refine ⟨fun x y hxy => ?_, fun x y hxy => ?_, fun x y hxy => ?_⟩
  all_goals obtain ⟨l, l', rfl⟩ := hsplit x y hxy
  · exact h.whole.tiled.next_eq
  · have hjoint := (isChain_at.mp h.coupled.chain).right.right.rel_head? (y := y) rfl
    exact hjoint.left
  · have hjoint := (isChain_at.mp h.coupled.chain).right.right.rel_head? (y := y) rfl
    exact hjoint.right.resolve_left (h.whole.tiled.strides.ne_zero (by simp))

lemma found_of_split {l l' : List ℕ} (h : Strides u (l ++ p :: l')) (hno : ∀ q ∈ l, ¬ Fits u.mem size q) (hfit : Fits u.mem size p) :
    Found u size p := by
  obtain ⟨m, hl, rfl, -⟩ := seg_append.mp h.walk
  exact ⟨⟨l, hl, hno⟩, (lt_stride _ _).trans_le (h.stride_le (by simp)), hfit⟩

lemma not_found (h : Strides u bs) (hno : ∀ q ∈ bs, ¬ Fits u.mem size q) (p : ℕ) : ¬ Found u size p := by
  rintro ⟨⟨l, hl, -⟩, hlt, hfit⟩
  exact hno p (h.mem_of_walk hl hlt) hfit

lemma kalloc_step (h : Sound s bs) (hk : kalloc fuel s.heap size = .ok (p, u)) (hu : Undivided s.heap (alignSize size)) :
    ∃ bs' b, p = b + SIZEOF_MEM_HEADER ∧ Allocated s.heap u bs bs' (alignSize size) b ∧ Sound ⟨u, p :: s.live⟩ bs' ∧
      (∀ old, Holds s.heap (alignSize size) old → old ≤ (load u.mem b).size) ∧
      ∀ c ∈ bs, c ≠ b → NextFree u.mem c → NextFree s.heap.mem c := by
  have ht := h.whole.tiled
  rcases ht.strides.kalloc_ok (n := size) (.inr (ne_fuel hk)) with ⟨l, b, l', rfl, hno, hfit, hok⟩ | ⟨hno, hok⟩
  · obtain ⟨rfl, rfl⟩ := Prod.mk.injEq .. ▸ Except.ok.inj (hok.symm.trans hk)
    have hfound := found_of_split ht.strides hno hfit
    have hsplit := hu.whole b hfound
    have ha := ht.takeNode_whole hfit.1 hfit.2 hsplit
    obtain ⟨hsize, hload⟩ : (load (takeNode s.heap.mem b (l.getLastD 0) (alignSize size)) b).size = _ ∧ _ := ht.strides.takeNode_load
    rw [if_neg (by omega)] at hsize
    refine ⟨_, b, rfl, ha, ⟨h.whole.allocated ha, h.coupled.takeNode ht.strides hsplit⟩, fun old hold => ?_, fun c hc hcb hfree => ?_⟩
    · change old ≤ (load (takeNode s.heap.mem b (l.getLastD 0) (alignSize size)) b).size
      rw [hsize]
      exact hold.found b hfound
    · exact nextFree_of_taken ht ha.used hload hc hcb hfree
  · obtain ⟨rfl, rfl⟩ := Prod.mk.injEq .. ▸ Except.ok.inj (hok.symm.trans hk)
    have hroom := ht.room_behind hu.room hno
    have hregion := ht.region
    have hbelow := ht.strides.below
    have ha := ht.appendNode_ok hroom
    obtain ⟨hsize, -⟩ : (load (appendNode s.heap (bs.getLastD 0) (alignSize size)).mem s.heap.curHeapPos).size = _ ∧ _ :=
      ht.strides.appendNode_load hbelow
    rw [u32_eq alignSize_lt] at hsize
    have hp : u32 (s.heap.curHeapPos + SIZEOF_MEM_HEADER) = s.heap.curHeapPos + SIZEOF_MEM_HEADER := u32_eq (by omega)
    have haligned : u32 (alignSize size) % SIZEOF_MEM_HEADER = 0 := by
      rw [u32_eq alignSize_lt, SIZEOF_MEM_HEADER, alignSize]
      omega
    refine ⟨_, s.heap.curHeapPos, hp, ha, ⟨by rw [hp]; exact h.whole.allocated ha, h.coupled.appendNode ht.strides haligned⟩,
      fun old hold => ?_, fun c hc hcb hfree => ?_⟩
    · rw [hsize]
      exact hold.fresh (not_found ht.strides hno)
    · exact nextFree_of_appended ht ha hc hfree

lemma kfree_step (h : Sound s bs) (hp : p ∈ s.live) (hlink : Relinks s.heap.mem (p - SIZEOF_MEM_HEADER)) :
    ∃ bs', Sound ⟨kfree s.heap p, s.live.erase p⟩ bs' := by
  obtain ⟨b, hb, rfl, -⟩ := h.whole.used p hp
  obtain ⟨l, l', rfl⟩ := List.append_of_mem hb
  rw [Nat.add_sub_cancel] at hlink
  obtain ⟨bs', hf, ht⟩ := h.whole.tiled.kfree_coupled h.coupled hlink
  exact ⟨bs', h.whole.freed hf, ht⟩

lemma fill (h : Sound s bs) {b : ℕ} {m : Mem} (hb : b ∈ bs)
    (hm : ∀ a, a < b + SIZEOF_MEM_HEADER ∨ stride s.heap.mem b ≤ a → m a = s.heap.mem a) :
    Sound ⟨{ s.heap with mem := m }, s.live⟩ bs ∧ ∀ c ∈ bs, load m c = load s.heap.mem c := by
  obtain ⟨hw, hload⟩ := h.whole.fill hb hm
  refine ⟨⟨hw, h.coupled.congr fun r hr => ?_⟩, hload⟩
  rw [Free, hload r hr]
  exact ⟨rfl, rfl, id⟩

lemma grow_step (h : Sound s bs) {r : ℕ} (hp : p ∈ s.live) (hr : rekalloc fuel s.heap p size = .ok (r, u)) (h0 : r ≠ 0)
    (hfree : NextFree s.heap.mem (p - SIZEOF_MEM_HEADER))
    (hleaves : Leaves (load s.heap.mem (headerOf s p).next) (headerOf s p).size (alignSize size)) :
    ∃ bs', Sound ⟨u, r :: s.live.erase p⟩ bs' := by
  obtain ⟨b, hb, rfl, hu⟩ := h.whole.used p hp
  obtain ⟨l, l', rfl⟩ := List.append_of_mem hb
  rw [headerOf, Nat.add_sub_cancel] at hleaves
  rw [Nat.add_sub_cancel] at hfree
  rw [rekalloc, Nat.add_sub_cancel, if_neg hfree.1, if_pos hfree.2] at hr
  have ht := h.whole.tiled
  have hnext : (load s.heap.mem b).next = l'.headD 0 := ht.next_eq
  cases l' with
  | nil => exact absurd hnext hfree.1
  | cons q l' =>
    rw [List.headD_cons] at hnext
    have hqfree : Free s.heap.mem q := hnext ▸ hfree.2
    rw [hnext] at hleaves hr
    have ht' : Tiled s.heap (l ++ [b] ++ q :: l') := by simpa using ht
    have hq : stride s.heap.mem b = q := ht.strides.stride_eq
    have h32 := ht.strides.lt_two_pow (p := q) (by simp)
    rw [stride] at hq h32
    have hb32 : u32 (b + SIZEOF_MEM_HEADER) = b + SIZEOF_MEM_HEADER := u32_eq (by omega)
    have hsum : u32 ((load s.heap.mem q).size + (load s.heap.mem b).size) = (load s.heap.mem q).size + (load s.heap.mem b).size :=
      u32_eq (by omega)
    rw [hb32, hsum] at hr
    split_ifs at hr with hfit
    · obtain ⟨rfl, rfl⟩ := Prod.mk.injEq .. ▸ Except.ok.inj hr
      have hsize : alignSize size < (load s.heap.mem q).size + (load s.heap.mem b).size := by
        have := hleaves.1
        omega
      have haligned : alignSize size % SIZEOF_MEM_HEADER = 0 := by
        rw [SIZEOF_MEM_HEADER, alignSize]
        omega
      have hlast : l' = [] ∨ alignSize size = (load s.heap.mem b).size := by
        refine hleaves.2.imp_left fun hn => ?_
        rw [ht'.next_eq] at hn
        cases l' with
        | nil => rfl
        | cons r l' => exact absurd hn (ht.strides.ne_zero (by simp))
      obtain ⟨z, htz, hcoupled, hstatus⟩ := ht.growNode_coupled h.coupled hu hqfree hsize haligned hlast
      have hperm := List.perm_cons_erase hp
      refine ⟨_, ⟨htz, hperm.nodup_iff.mp h.whole.nodup, fun r hr => ?_⟩, hcoupled⟩
      obtain ⟨c, hc, rfl, huc⟩ := h.whole.used r (hperm.mem_iff.mpr hr)
      have hcq : c ≠ q := by
        rintro rfl
        exact not_free_of_used huc hqfree
      have hc' : c ∈ l ++ b :: l' := (mem_behind.mp hc).resolve_left hcq
      exact ⟨c, mem_behind.mpr (.inr hc'), rfl, (hstatus c hc').trans huc⟩
    · obtain ⟨rfl, -⟩ := Prod.mk.injEq .. ▸ Except.ok.inj hr
      exact absurd rfl h0

lemma move_step (h : Sound s bs) {r : ℕ} (hp : p ∈ s.live) (hr : rekalloc fuel s.heap p size = .ok (r, u))
    (hfree : ¬ NextFree s.heap.mem (p - SIZEOF_MEM_HEADER)) (hu : Undivided s.heap (alignSize size))
    (hold : Holds s.heap (alignSize size) (headerOf s p).size) : ∃ bs', Sound ⟨u, r :: s.live.erase p⟩ bs' := by
  obtain ⟨b, hb, rfl, hused⟩ := h.whole.used p hp
  rw [headerOf] at hold
  rw [Nat.add_sub_cancel] at hfree hold
  rw [rekalloc_move hfree] at hr
  obtain ⟨⟨r', t⟩, hk, hret⟩ := bind_eq_ok.mp hr
  obtain ⟨rfl, rfl⟩ := Prod.mk.injEq .. ▸ Except.ok.inj hret
  rw [← alignSize_alignSize] at hu hold
  obtain ⟨bs', b', rfl, ha, h', hholds, hnext⟩ := h.kalloc_step hk hu
  have hne : b ≠ b' := by
    rintro rfl
    exact not_free_of_used hused (ha.free hb)
  obtain ⟨hb', hkept⟩ := ha.keeps b hb
  have hsize := (hkept hne).size
  have hfit := hholds _ hold
  rw [Nat.add_sub_cancel, hsize]
  obtain ⟨hfill, hload⟩ := h'.fill (b := b')
    (m := memcpy t.mem (b' + SIZEOF_MEM_HEADER) (b + SIZEOF_MEM_HEADER) (load s.heap.mem b).size) ha.mem fun a ha => by
      change a < _ ∨ b' + SIZEOF_MEM_HEADER + (load t.mem b').size ≤ a at ha
      exact memcpy_of_outside (by omega)
  have hlink : Relinks (memcpy t.mem (b' + SIZEOF_MEM_HEADER) (b + SIZEOF_MEM_HEADER) (load s.heap.mem b).size) b := by
    rintro ⟨h0, hf⟩
    rw [hload b hb'] at h0 hf
    rw [hload _ (next_mem h'.whole.tiled hb' h0)] at hf
    exact absurd (hnext b hb hne ⟨h0, hf⟩) hfree
  obtain ⟨bs'', hs⟩ := hfill.kfree_step (List.mem_cons_of_mem _ hp) (by rwa [Nat.add_sub_cancel])
  have herase : ((b' + SIZEOF_MEM_HEADER) :: s.live).erase (b + SIZEOF_MEM_HEADER) =
      (b' + SIZEOF_MEM_HEADER) :: s.live.erase (b + SIZEOF_MEM_HEADER) := by
    refine List.erase_cons_tail ?_
    simpa using Ne.symm hne
  exact ⟨bs'', herase ▸ hs⟩

lemma step (h : Sound s bs) (hs : KeptStep s op t) : ∃ bs', Sound t bs' := by
  obtain ⟨hs, hkeeps⟩ := hs
  cases hs with
  | call hs =>
    cases hs with
    | kalloc hk =>
      obtain ⟨bs', b, -, -, h', -⟩ := h.kalloc_step hk hkeeps
      exact ⟨bs', h'⟩
    | kfree hp => exact h.kfree_step hp hkeeps
    | write hp hpa ha =>
      obtain ⟨b, hb, hout⟩ := h.whole.outside_write hp hpa ha
      exact ⟨bs, (h.fill hb hout).left⟩
  | @rekalloc _ p size _ _ hp hr h0 =>
    rw [Keeps] at hkeeps
    by_cases hfree : NextFree s.heap.mem (p - SIZEOF_MEM_HEADER)
    · rw [if_pos hfree] at hkeeps
      exact h.grow_step hp hr h0 hfree hkeeps
    · rw [if_neg hfree] at hkeeps
      exact h.move_step hp hr hfree hkeeps.left hkeeps.right

end Sound

lemma run_sound {m : Mem} {heapStart : ℕ} {ops : List Op} {s : Clients} (h0 : heapStart ≠ 0)
    (h32 : heapStart + HEAP_START_SIZE < 2 ^ 32) (h : Run KeptStep ⟨initHeap m heapStart, []⟩ ops s) : ∃ bs, Sound s bs := by
  refine h.invariant (I := fun s => ∃ bs, Sound s bs) (fun _ _ _ hw hs => ?_) ⟨[], ?_⟩
  · obtain ⟨bs, hw⟩ := hw
    exact hw.step hs
  · exact ⟨⟨initHeap_tiled h0 h32, List.nodup_nil, by simp⟩, initial_coupled⟩

theorem run_wellLinked {m : Mem} {heapStart : ℕ} {ops : List Op} {s : Clients} (h0 : heapStart ≠ 0)
    (h32 : heapStart + HEAP_START_SIZE < 2 ^ 32) (h : Run KeptStep ⟨initHeap m heapStart, []⟩ ops s) : WellLinked s.heap := by
  obtain ⟨bs, hs⟩ := run_sound h0 h32 h
  exact hs.wellLinked

/-- The only block moves to the end of the heap. -/
theorem run_wellLinked_moved : ∃ s, Run KeptStep start [.call (.kalloc 32), .rekalloc 4112 64] s ∧ WellLinked s.heap := by
  obtain ⟨⟨s, r, t⟩, hs, hl⟩ := exists_of_toOption_map
    (x := perform 1 start (.kalloc 32) >>= fun s => rekalloc 2 s.heap 4112 64 >>= fun q => .ok (s, q.1, q.2))
    (g := fun (s, r, _) => (s.live, s.heap.heapStart, s.heap.curHeapPos, load s.heap.mem 4096, r))
    (c := ([4112], 4096, 4144, ⟨32, HEAP_USED, 0, 0⟩, 4160)) (by decide)
  obtain ⟨s', h₁, h⟩ := bind_eq_ok.mp hs
  obtain ⟨q, h₂, he⟩ := bind_eq_ok.mp h
  simp only [Except.ok.injEq, Prod.mk.injEq] at he hl
  obtain ⟨rfl, rfl, rfl⟩ := he
  obtain ⟨hlive, hstart, hpos, hload, hr⟩ := hl
  have hstrides : Strides s'.heap [4096] := by
    refine ⟨by rw [hstart]; decide, by rw [hpos]; decide, hstart, by decide, ?_⟩
    rw [stride, hload, hpos]
    rfl
  have hnone : ∀ p, ¬ Found s'.heap (alignSize 64) p := Sound.not_found hstrides (by simp [hload, HEAP_USED, HEAP_FREE])
  have hfree : ¬ NextFree s'.heap.mem (4112 - SIZEOF_MEM_HEADER) := fun hf => hf.1 (congrArg MemHeader.next hload)
  have hempty : ∀ p, ¬ Found start.heap (alignSize 32) p := by
    rintro p ⟨⟨l, hl, -⟩, hlt, -⟩
    exact absurd (hl.start_le (lt_stride _)) (Nat.not_le.mpr hlt)
  have hk₁ : KeptStep start (.call (.kalloc 32)) s' :=
    ⟨.call (perform_step h₁), .inr (by decide), fun p hp => absurd hp (hempty p)⟩
  have hk₂ : KeptStep s' (.rekalloc 4112 64) ⟨q.2, q.1 :: s'.live.erase 4112⟩ := by
    refine ⟨.rekalloc (by simp [hlive]) h₂ (by rw [hr]; decide), ?_⟩
    rw [Keeps, if_neg hfree]
    refine ⟨⟨.inr (by rw [hpos, hstart]; decide), fun p hp => absurd hp (hnone p)⟩, fun p hp => absurd hp (hnone p), fun _ => ?_⟩
    rw [headerOf, show 4112 - SIZEOF_MEM_HEADER = 4096 from rfl, hload]
    decide
  have hrun := (Run.single hk₁).snoc hk₂
  exact ⟨_, hrun, run_wellLinked (m := fun _ => 0) (by decide : 4096 ≠ 0) (by decide) hrun⟩

lemma run_call {s t : Clients} {ops : List HeapRuns.Op} (h : Run HeapRuns.Step s ops t) : Run Step s (ops.map .call) t := by
  induction h with
  | nil => exact .nil _
  | snoc _ ht ih =>
    rw [List.map_append]
    exact .snoc ih (.call ht)

/-- The rest of a block that was split is not linked back to it. -/
theorem run_not_wellLinked : ∃ s, Run Step start [.call (.kalloc 128), .call (.kalloc 32), .call (.kfree 4112),
    .call (.kalloc 32)] s ∧ ¬ WellLinked s.heap := by
  obtain ⟨s, hs, hl⟩ := exists_of_toOption_map (x := ([.kalloc 128, .kalloc 32, .kfree 4112, .kalloc 32] :
    List HeapRuns.Op).foldlM (perform 4) start)
    (g := fun s => (s.heap.heapStart, s.heap.curHeapPos, (load s.heap.mem 4096).size, (load s.heap.mem 4144).prev))
    (c := (4096, 4288, 32, 0)) (by decide)
  simp only [Prod.mk.injEq] at hl
  obtain ⟨hstart, hpos, hsize, hprev⟩ := hl
  refine ⟨s, run_call (performs_run hs), fun hw => ?_⟩
  have hn : Neighbours s.heap 4096 4144 := by
    refine ⟨⟨⟨[], hstart⟩, ?_⟩, by rw [hpos]; decide⟩
    rw [stride, hsize]
    rfl
  have hback := hw.prev _ _ hn
  rw [hprev] at hback
  exact absurd hback (by decide)

end WordOS.Memory.HeapLinkRuns
