import WordOS.Lib.Runs
import WordOS.Memory.HeapAlloc
import WordOS.Memory.HeapFree

/-! The heap over runs of allocations, releases and writes of its clients. -/

namespace WordOS.Memory.HeapRuns

open Machine Lib.Bytes Lib.LinkedList Lib.Runs

/-- The heap together with what `kalloc` returned and was not freed since. -/
structure Clients where
  heap : Heap
  live : List ℕ

inductive Op
  | kalloc (size : ℕ)
  | kfree (p : ℕ)
  | write (a : ℕ) (v : BitVec 8)

def headerOf (s : Clients) (p : ℕ) : MemHeader := load s.heap.mem (p - SIZEOF_MEM_HEADER)

inductive Step : Clients → Op → Clients → Prop
  | kalloc {s fuel size p t} : kalloc fuel s.heap size = .ok (p, t) → Step s (.kalloc size) ⟨t, p :: s.live⟩
  | kfree {s p} : p ∈ s.live → Step s (.kfree p) ⟨kfree s.heap p, s.live.erase p⟩
  | write {s p a v} : p ∈ s.live → p ≤ a → a < p + (headerOf s p).size →
      Step s (.write a v) ⟨{ s.heap with mem := Function.update s.heap.mem a v }, s.live⟩

/-- The operations of a client, with `fuel` for the walks of `kalloc`. -/
def perform (fuel : ℕ) (s : Clients) : Op → Exec Clients
  | .kalloc size => do
    let (p, t) ← Memory.kalloc fuel s.heap size
    return ⟨t, p :: s.live⟩
  | .kfree p => if p ∈ s.live then .ok ⟨Memory.kfree s.heap p, s.live.erase p⟩ else .error .fault
  | .write a v =>
    if ∃ p ∈ s.live, p ≤ a ∧ a < p + (headerOf s p).size then
      .ok ⟨{ s.heap with mem := Function.update s.heap.mem a v }, s.live⟩
    else .error .fault

lemma perform_step {fuel : ℕ} {s t : Clients} {op : Op} (h : perform fuel s op = .ok t) : Step s op t := by
  cases op with
  | kalloc size =>
    obtain ⟨⟨p, u⟩, hk, he⟩ := bind_eq_ok.mp h
    obtain rfl := Except.ok.inj he
    exact .kalloc hk
  | kfree p =>
    rw [perform] at h
    split_ifs at h with hp
    obtain rfl := Except.ok.inj h
    exact .kfree hp
  | write a v =>
    rw [perform] at h
    split_ifs at h with hp
    obtain ⟨p, hp, hpa, ha⟩ := hp
    obtain rfl := Except.ok.inj h
    exact .write hp hpa ha

lemma performs_run {fuel : ℕ} {s t : Clients} {ops : List Op} (h : ops.foldlM (perform fuel) s = .ok t) :
    Run Step s ops t := by
  induction ops generalizing s with
  | nil =>
    obtain rfl := Except.ok.inj h
    exact .nil s
  | cons op ops ih =>
    rw [List.foldlM_cons] at h
    obtain ⟨u, hu, ht⟩ := bind_eq_ok.mp h
    exact .cons (perform_step hu) (ih ht)

/-- The walk from `heap_start` meets `a` and goes on from it to `b`. -/
def Precedes (s : Heap) (a b : ℕ) : Prop :=
  (∃ l, Seg (stride s.mem) s.heapStart l a) ∧ stride s.mem a = b

/-- The `prev` link of `p`, where it leads to a byte that reads as free, leads to the block right before `p`. -/
def Linked (s : Clients) (p : ℕ) : Prop :=
  (headerOf s p).prev ≠ 0 → (load s.heap.mem (headerOf s p).prev).status = HEAP_FREE →
    Precedes s.heap (headerOf s p).prev (p - SIZEOF_MEM_HEADER)

/-- What keeps the heap whole: room for what is allocated, and no stale link at what is freed. -/
def Safe (s : Clients) : Op → Prop
  | .kalloc size => Room s.heap (alignSize size)
  | .kfree p => Linked s p
  | .write _ _ => True

def SafeStep (s : Clients) (op : Op) (t : Clients) : Prop := Step s op t ∧ Safe s op

/-- The live blocks are used blocks of a tiled heap. -/
structure Whole (s : Clients) (bs : List ℕ) : Prop where
  tiled : Tiled s.heap bs
  nodup : s.live.Nodup
  used : ∀ p ∈ s.live, ∃ b ∈ bs, p = b + SIZEOF_MEM_HEADER ∧ (load s.heap.mem b).status = HEAP_USED

namespace Whole

variable {s t : Clients} {bs : List ℕ} {p q : ℕ} {op : Op}

lemma header_mem (h : Whole s bs) (hp : p ∈ s.live) :
    p - SIZEOF_MEM_HEADER ∈ bs ∧ p - SIZEOF_MEM_HEADER + SIZEOF_MEM_HEADER = p ∧ (headerOf s p).status = HEAP_USED := by
  obtain ⟨b, hb, rfl, hu⟩ := h.used p hp
  rw [headerOf, Nat.add_sub_cancel]
  exact ⟨hb, rfl, hu⟩

lemma allocated (h : Whole s bs) {bs' : List ℕ} {t : Heap} {n b : ℕ} (ha : Allocated s.heap t bs bs' n b) :
    Whole ⟨t, (b + SIZEOF_MEM_HEADER) :: s.live⟩ bs' := by
  refine ⟨ha.tiled, List.nodup_cons.mpr ⟨?_, h.nodup⟩, ?_⟩
  · intro hm
    obtain ⟨c, hc, he, hu⟩ := h.used _ hm
    obtain rfl : b = c := by omega
    rw [ha.free hc] at hu
    exact absurd hu (by decide)
  · intro q hq
    rcases List.mem_cons.mp hq with rfl | hq
    · exact ⟨b, ha.mem, rfl, ha.used⟩
    · obtain ⟨c, hc, rfl, hu⟩ := h.used q hq
      obtain ⟨hc', hk⟩ := ha.keeps c hc
      refine ⟨c, hc', rfl, ?_⟩
      by_cases hcb : c = b
      · exact hcb ▸ ha.used
      · exact (hk hcb).status.trans hu

lemma kalloc_step (h : Whole s bs) {fuel size : ℕ} {t : Heap} (hk : kalloc fuel s.heap size = .ok (p, t))
    (hr : Room s.heap (alignSize size)) :
    ∃ bs' b, p = b + SIZEOF_MEM_HEADER ∧ Allocated s.heap t bs bs' (alignSize size) b ∧ Whole ⟨t, p :: s.live⟩ bs' := by
  obtain ⟨r, t', hok, hall⟩ := h.tiled.kalloc_ok (.inr (ne_fuel hk))
  obtain ⟨rfl, rfl⟩ := Prod.mk.injEq .. ▸ Except.ok.inj (hok.symm.trans hk)
  obtain ⟨bs', b, rfl, ha⟩ := hall hr
  exact ⟨bs', b, rfl, ha, h.allocated ha⟩

lemma back_of_linked (h : Whole s bs) {l l' : List ℕ} {b : ℕ} (hbs : bs = l ++ b :: l')
    (hl : Linked s (b + SIZEOF_MEM_HEADER)) : (load s.heap.mem b).prev ≠ 0 →
      (load s.heap.mem (load s.heap.mem b).prev).status = HEAP_FREE → ∃ l₀, l = l₀ ++ [(load s.heap.mem b).prev] := by
  rw [Linked, headerOf, Nat.add_sub_cancel] at hl
  intro h0 hf
  obtain ⟨⟨la, hla⟩, hs⟩ := hl h0 hf
  subst hbs
  have hlt : (load s.heap.mem b).prev < s.heap.curHeapPos := by
    have := lt_stride s.heap.mem (load s.heap.mem b).prev
    have := h.tiled.strides.header_le (p := b) (by simp)
    omega
  exact h.tiled.strides.before_of_stride (h.tiled.strides.mem_of_walk hla hlt) hs

lemma freed (h : Whole s bs) {bs' : List ℕ} {t : Heap} {b : ℕ} (hf : Freed s.heap t bs bs' b) :
    Whole ⟨t, s.live.erase (b + SIZEOF_MEM_HEADER)⟩ bs' := by
  refine ⟨hf.tiled, h.nodup.erase _, fun q hq => ?_⟩
  obtain ⟨hne, hq⟩ := (h.nodup.mem_erase_iff).mp hq
  obtain ⟨c, hc, rfl, huc⟩ := h.used q hq
  obtain ⟨hc', hk⟩ := hf.keeps c hc (by omega) huc
  exact ⟨c, hc', rfl, hk.status.trans huc⟩

lemma kfree_step (h : Whole s bs) (hp : p ∈ s.live) (hl : Linked s p) :
    (∃ bs', Whole ⟨kfree s.heap p, s.live.erase p⟩ bs') ∧
      ∀ q ∈ s.live, q ≠ p → Kept s.heap.mem (kfree s.heap p).mem (q - SIZEOF_MEM_HEADER) := by
  obtain ⟨b, hb, rfl, hu⟩ := h.used p hp
  obtain ⟨l, l', rfl⟩ := List.append_of_mem hb
  obtain ⟨bs', hf⟩ := h.tiled.kfree_ok (h.back_of_linked rfl hl)
  refine ⟨⟨bs', h.freed hf⟩, fun q hq hne => ?_⟩
  obtain ⟨c, hc, rfl, huc⟩ := h.used q hq
  rw [Nat.add_sub_cancel]
  exact (hf.keeps c hc (by omega) huc).2

lemma fill (h : Whole s bs) {b : ℕ} {m : Mem} (hb : b ∈ bs)
    (hm : ∀ a, a < b + SIZEOF_MEM_HEADER ∨ stride s.heap.mem b ≤ a → m a = s.heap.mem a) :
    Whole ⟨{ s.heap with mem := m }, s.live⟩ bs ∧ ∀ c ∈ bs, load m c = load s.heap.mem c := by
  obtain ⟨ht, hload, _⟩ := h.tiled.fill hb hm
  refine ⟨⟨ht, h.nodup, fun q hq => ?_⟩, hload⟩
  obtain ⟨c, hc, rfl, hu⟩ := h.used q hq
  exact ⟨c, hc, rfl, by rw [hload c hc, hu]⟩

lemma outside_write (h : Whole s bs) {a : ℕ} {v : BitVec 8} (hp : p ∈ s.live) (hpa : p ≤ a) (ha : a < p + (headerOf s p).size) :
    ∃ b ∈ bs, ∀ x, x < b + SIZEOF_MEM_HEADER ∨ stride s.heap.mem b ≤ x → Function.update s.heap.mem a v x = s.heap.mem x := by
  obtain ⟨b, hb, rfl, _⟩ := h.used p hp
  rw [headerOf, Nat.add_sub_cancel] at ha
  exact ⟨b, hb, fun x hx => Function.update_of_ne (by rw [stride] at hx; omega) ..⟩

lemma write_step (h : Whole s bs) {a : ℕ} {v : BitVec 8} (hp : p ∈ s.live) (hpa : p ≤ a)
    (ha : a < p + (headerOf s p).size) :
    Whole ⟨{ s.heap with mem := Function.update s.heap.mem a v }, s.live⟩ bs := by
  obtain ⟨b, hb, hout⟩ := h.outside_write (v := v) hp hpa ha
  exact (h.fill hb hout).left

lemma step (h : Whole s bs) (hs : SafeStep s op t) : ∃ bs', Whole t bs' := by
  obtain ⟨hs, hsafe⟩ := hs
  cases hs with
  | kalloc hk =>
    obtain ⟨bs', _, _, _, h'⟩ := h.kalloc_step hk hsafe
    exact ⟨bs', h'⟩
  | kfree hp => exact (h.kfree_step hp hsafe).1
  | write hp hpa ha => exact ⟨bs, h.write_step hp hpa ha⟩

end Whole

lemma run_whole {m : Mem} {heapStart : ℕ} {ops : List Op} {s : Clients} (h0 : heapStart ≠ 0)
    (h32 : heapStart + HEAP_START_SIZE < 2 ^ 32) (h : Run SafeStep ⟨initHeap m heapStart, []⟩ ops s) :
    ∃ bs, Whole s bs := by
  refine h.invariant (I := fun s => ∃ bs, Whole s bs) (fun _ _ _ hw hs => ?_) ⟨[], ?_⟩
  · obtain ⟨bs, hw⟩ := hw
    exact hw.step hs
  · exact ⟨initHeap_tiled h0 h32, List.nodup_nil, by simp⟩

/-- The live blocks, headers included, are disjoint, and the walk from `heap_start` meets all of
them and ends at `cur_heap_pos`. -/
structure WellTiled (s : Clients) : Prop where
  disjoint : s.live.Pairwise fun p q => p + (headerOf s p).size ≤ q - SIZEOF_MEM_HEADER ∨
    q + (headerOf s q).size ≤ p - SIZEOF_MEM_HEADER
  walk : ∃ bs, Seg (stride s.heap.mem) s.heap.heapStart bs s.heap.curHeapPos ∧
    ∀ p ∈ s.live, p - SIZEOF_MEM_HEADER ∈ bs

lemma Whole.wellTiled {s : Clients} {bs : List ℕ} (h : Whole s bs) : WellTiled s := by
  refine ⟨?_, bs, h.tiled.walk, fun p hp => (h.header_mem hp).1⟩
  refine h.nodup.imp_of_mem fun {p q} hp hq hne => ?_
  obtain ⟨hpb, hpe, _⟩ := h.header_mem hp
  obtain ⟨hqb, hqe, _⟩ := h.header_mem hq
  have hd := h.tiled.strides.disjoint hpb hqb (fun he => hne (by rw [← hpe, ← hqe, he]))
  rw [stride, stride, hpe, hqe] at hd
  exact hd

def start : Clients := ⟨initHeap (fun _ => 0) 4096, []⟩

theorem run_wellTiled {m : Mem} {heapStart : ℕ} {ops : List Op} {s : Clients} (h0 : heapStart ≠ 0)
    (h32 : heapStart + HEAP_START_SIZE < 2 ^ 32) (h : Run SafeStep ⟨initHeap m heapStart, []⟩ ops s) :
    WellTiled s := by
  obtain ⟨bs, hw⟩ := run_whole h0 h32 h
  exact hw.wellTiled

theorem run_wellTiled_one : ∃ s, Run SafeStep start [.kalloc 32, .kfree 4112] s ∧ WellTiled s := by
  obtain ⟨s, hs, hl⟩ := exists_of_toOption_map (x := perform 1 start (.kalloc 32))
    (g := fun s => (s.live, (headerOf s 4112).prev)) (c := ([4112], 0)) (by decide)
  obtain ⟨hlive, hprev⟩ := Prod.mk.injEq .. ▸ hl
  have h₁ : SafeStep start (.kalloc 32) s := ⟨perform_step hs, .inr (by decide)⟩
  have h₂ : SafeStep s (.kfree 4112) _ := ⟨.kfree (by simp [hlive]), fun h0 => (h0 hprev).elim⟩
  have hrun := (Run.single h₁).snoc h₂
  exact ⟨_, hrun, run_wellTiled (m := fun _ => 0) (show 4096 ≠ 0 by decide) (by decide) hrun⟩

/-- The last block freed takes the first one, split since, for its neighbour: that grows over the block between them. -/
theorem run_not_wellTiled : ∃ s, Run Step start [.kalloc 128, .kalloc 32, .kfree 4112, .kalloc 32, .kalloc 64,
    .kfree 4112, .kfree 4256] s ∧ ¬ WellTiled s := by
  obtain ⟨s, hs, hl⟩ := exists_of_toOption_map (x := ([.kalloc 128, .kalloc 32, .kfree 4112, .kalloc 32, .kalloc 64,
    .kfree 4112, .kfree 4256] : List Op).foldlM (perform 4) start)
    (g := fun s => (s.live, s.heap.heapStart, (load s.heap.mem 4096).size)) (c := ([4160], 4096, 80)) (by decide)
  simp only [Prod.mk.injEq] at hl
  obtain ⟨hlive, hstart, hsize⟩ := hl
  refine ⟨s, performs_run hs, fun hw => ?_⟩
  obtain ⟨bs, hwalk, hmem⟩ := hw.walk
  have hm : 4144 ∈ bs := hmem 4160 (by simp [hlive])
  obtain ⟨a, rest, rfl⟩ := List.exists_cons_of_ne_nil (List.ne_nil_of_mem hm)
  obtain ⟨ha, _, hrest⟩ := hwalk
  obtain rfl : a = 4096 := ha.symm.trans hstart
  have hle := hrest.start_le_mem (lt_stride _) ((List.mem_cons.mp hm).resolve_left (by decide))
  rw [stride, hsize] at hle
  exact absurd hle (by decide)

theorem run_kfree_kept {m : Mem} {heapStart : ℕ} {ops : List Op} {s : Clients} {p : ℕ} (h0 : heapStart ≠ 0)
    (h32 : heapStart + HEAP_START_SIZE < 2 ^ 32) (h : Run SafeStep ⟨initHeap m heapStart, []⟩ ops s)
    (hp : p ∈ s.live) (hl : Linked s p) :
    ∀ q ∈ s.live, q ≠ p → Kept s.heap.mem (kfree s.heap p).mem (q - SIZEOF_MEM_HEADER) := by
  obtain ⟨bs, hw⟩ := run_whole h0 h32 h
  exact (hw.kfree_step hp hl).2

theorem run_kfree_kept_two : ∃ s, Run SafeStep start [.kalloc 32, .kalloc 32] s ∧
    Kept s.heap.mem (kfree s.heap 4112).mem 4144 := by
  obtain ⟨⟨s, t⟩, hs, hl⟩ := exists_of_toOption_map
    (x := perform 1 start (.kalloc 32) >>= fun s => perform 2 s (.kalloc 32) >>= fun t => .ok (s, t))
    (g := fun (s, t) => (s.heap.curHeapPos, s.heap.heapStart, t.live, (headerOf t 4112).prev))
    (c := (4144, 4096, [4160, 4112], 0)) (by decide)
  obtain ⟨s', h₁, h⟩ := bind_eq_ok.mp hs
  obtain ⟨t', h₂, he⟩ := bind_eq_ok.mp h
  obtain ⟨rfl, rfl⟩ := Prod.mk.injEq .. ▸ Except.ok.inj he
  simp only [Prod.mk.injEq] at hl
  obtain ⟨hpos, hstart, hlive, hprev⟩ := hl
  have hs₁ : SafeStep start (.kalloc 32) s' := ⟨perform_step h₁, .inr (by decide)⟩
  have hs₂ : SafeStep s' (.kalloc 32) t' := ⟨perform_step h₂, .inr (by rw [hpos, hstart]; decide)⟩
  have hrun := (Run.single hs₁).snoc hs₂
  exact ⟨t', hrun, run_kfree_kept (m := fun _ => 0) (show 4096 ≠ 0 by decide) (by decide) hrun (p := 4112)
    (by simp [hlive]) (fun h0 => (h0 hprev).elim) 4160 (by simp [hlive]) (by decide)⟩

/-- The block freed last is linked to a header inside the block allocated over it. -/
theorem run_kfree_overwrites : ∃ s, Run Step start [.kalloc 32, .kalloc 32, .kalloc 32, .kfree 4160, .kfree 4112,
    .kalloc 64] s ∧ 4208 ∈ s.live ∧ 4112 ∈ s.live ∧ ¬ Kept s.heap.mem (kfree s.heap 4208).mem 4096 := by
  obtain ⟨s, hs, hl⟩ := exists_of_toOption_map (x := ([.kalloc 32, .kalloc 32, .kalloc 32, .kfree 4160, .kfree 4112,
    .kalloc 64] : List Op).foldlM (perform 4) start)
    (g := fun s => (s.live, (load s.heap.mem 4096).size, s.heap.mem 4144, (kfree s.heap 4208).mem 4144))
    (c := ([4112, 4208], 80, 0, 48)) (by decide)
  simp only [Prod.mk.injEq] at hl
  obtain ⟨hlive, hsize, hbefore, hafter⟩ := hl
  refine ⟨s, performs_run hs, by simp [hlive], by simp [hlive], fun hk => ?_⟩
  have := hk.payload 4144 (by decide) (by rw [stride, hsize]; decide)
  rw [hbefore, hafter] at this
  exact absurd this (by decide)

lemma le_alignSize {n : ℕ} (h : 0x20 - 1 + n < 2 ^ 32) : n ≤ alignSize n := by
  rw [alignSize, u32_eq h]
  omega

theorem run_kalloc_inside {m : Mem} {heapStart fuel n p : ℕ} {ops : List Op} {s : Clients} {t : Heap} (h0 : heapStart ≠ 0)
    (h32 : heapStart + HEAP_START_SIZE < 2 ^ 32) (h : Run SafeStep ⟨initHeap m heapStart, []⟩ ops s)
    (hn : 0x20 - 1 + n < 2 ^ 32) (hr : Room s.heap (alignSize n)) (hk : kalloc fuel s.heap n = .ok (p, t)) :
    s.heap.heapStart ≤ p ∧ p + n ≤ s.heap.heapStart + HEAP_START_SIZE := by
  obtain ⟨bs, hw⟩ := run_whole h0 h32 h
  obtain ⟨bs', b, rfl, ha, hw'⟩ := hw.kalloc_step hk hr
  have hle := ha.tiled.strides.stride_le ha.mem
  have hroom := ha.tiled.room
  have hstart := ha.tiled.strides.start_le ha.mem
  have hsize := (le_alignSize hn).trans ha.size_le
  rw [ha.start] at hroom hstart
  rw [stride] at hle
  omega

theorem run_kalloc_inside_one : ∃ p t, kalloc 1 start.heap 32 = .ok (p, t) ∧ 4096 ≤ p ∧ p + 32 ≤ 4096 + HEAP_START_SIZE := by
  obtain ⟨⟨p, t⟩, hk, _⟩ := exists_of_toOption_map (x := kalloc 1 start.heap 32) (g := Prod.fst) (c := 4112)
    (by decide)
  have h := run_kalloc_inside (m := fun _ => 0) (show 4096 ≠ 0 by decide) (by decide) (.nil _) (by decide)
    (.inr (by decide)) hk
  exact ⟨p, t, hk, h⟩

/-- A block of the size of the whole heap leaves no room for its header. -/
theorem kalloc_outside : ∃ t, kalloc 1 start.heap 40960 = .ok (4112, t) ∧ 4096 + HEAP_START_SIZE < 4112 + 40960 := by
  obtain ⟨⟨p, t⟩, hk, hp⟩ := exists_of_toOption_map (x := kalloc 1 start.heap 40960) (g := Prod.fst) (c := 4112)
    (by decide)
  obtain rfl : p = 4112 := hp
  exact ⟨t, hk, by decide⟩

end WordOS.Memory.HeapRuns
