import WordOS.Memory.HeapRekalloc
import Mathlib.Data.List.Chain

/-! The links between neighbouring blocks of the heap, and the operations that keep them. -/

namespace WordOS.Memory

open Machine Lib.Bytes Lib.LinkedList

abbrev Free (m : Mem) (p : ℕ) : Prop := (load m p).status = HEAP_FREE

/-- `q` is linked back to `p`, and the two are not both free. Before the first block there is the null pointer. -/
def Joint (m : Mem) (p q : ℕ) : Prop := (load m q).prev = p ∧ (p = 0 ∨ ¬ (Free m p ∧ Free m q))

/-- The neighbours among the blocks `bs` are joint. -/
structure Coupled (m : Mem) (bs : List ℕ) : Prop where
  chain : (0 :: bs).IsChain (Joint m)
  aligned : ∀ p ∈ bs, (load m p).size % SIZEOF_MEM_HEADER = 0

variable {m m' : Mem} {bs l l' l'' : List ℕ} {p q size : ℕ} {s : Heap}

lemma not_free_of_used (h : (load m p).status = HEAP_USED) : ¬ Free m p := by
  rw [Free, h]
  decide

lemma Joint.congr (h : Joint m p q) (hp : p = 0 ∨ (Free m' p → Free m p)) (hprev : (load m' q).prev = (load m q).prev)
    (hq : Free m' q → Free m q) : Joint m' p q := by
  refine ⟨hprev.trans h.left, ?_⟩
  rcases hp with hp | hp
  · exact .inl hp
  · exact h.right.imp_right fun hno hfree => hno ⟨hp hfree.left, hq hfree.right⟩

lemma chain_congr (h : (p :: bs).IsChain (Joint m)) (h0 : p = 0 ∨ (Free m' p → Free m p))
    (hb : ∀ r ∈ bs, (load m' r).prev = (load m r).prev ∧ (Free m' r → Free m r)) : (p :: bs).IsChain (Joint m') := by
  refine h.imp_of_mem_tail_imp fun a b ham hbm hj => hj.congr ?_ (hb b hbm).left (hb b hbm).right
  rcases List.mem_cons.mp ham with rfl | ham
  · exact h0
  · exact .inr (hb a ham).right

lemma initial_coupled : Coupled m [] := ⟨List.isChain_singleton 0, by simp⟩

namespace Coupled

lemma prev_eq (h : Coupled m (l ++ p :: l')) : (load m p).prev = l.getLastD 0 := (isChain_at.mp h.chain).right.left.left

lemma prev_back (h : Coupled m (l ++ p :: l')) (h0 : (load m p).prev ≠ 0) : ∃ l₀, l = l₀ ++ [(load m p).prev] := by
  have hprev := h.prev_eq
  rcases List.eq_nil_or_concat l with rfl | ⟨l₀, q, rfl⟩
  · exact absurd hprev h0
  · rw [List.concat_eq_append, List.getLastD_concat] at *
    exact ⟨l₀, by rw [hprev]⟩

lemma congr (h : Coupled m bs) (hb : ∀ r ∈ bs, (load m' r).prev = (load m r).prev ∧ (load m' r).size = (load m r).size ∧
    (Free m' r → Free m r)) : Coupled m' bs := by
  refine ⟨chain_congr h.chain (.inl rfl) fun r hr => ⟨(hb r hr).left, (hb r hr).right.right⟩, fun r hr => ?_⟩
  rw [(hb r hr).right.left]
  exact h.aligned r hr

lemma takeNode (h : Coupled s.mem (l ++ p :: l')) (ht : Strides s (l ++ p :: l'))
    (hsplit : (load s.mem p).size - size < HEAP_MIN_SPLIT_SIZE) :
    Coupled (takeNode s.mem p (l.getLastD 0) size) (l ++ p :: l') := by
  have ⟨hp, _⟩ : load (Memory.takeNode s.mem p (l.getLastD 0) size) p = _ ∧ _ := takeNode_whole hsplit
  have ⟨_, hothers⟩ : (load (Memory.takeNode s.mem p (l.getLastD 0) size) p).size = _ ∧ _ := ht.takeNode_load
  refine h.congr fun r hr => ?_
  by_cases hrp : r = p
  · rw [hrp, hp]
    refine ⟨?_, rfl, fun hf => ?_⟩
    · rw [← h.prev_eq]
      exact (u32_load s.mem p).2.1
    · exact absurd hf (not_free_of_used (by rw [hp]))
  · have he := hothers r (mem_of_split hr hrp)
    rw [Free, he]
    exact ⟨rfl, rfl, id⟩

lemma appendNode (h : Coupled s.mem bs) (ht : Strides s bs) (hsize : u32 size % SIZEOF_MEM_HEADER = 0) :
    Coupled (appendNode s (bs.getLastD 0) size).mem (bs ++ [s.curHeapPos]) := by
  have hlast := ht.last_le
  obtain ⟨hcur, -⟩ : load (Memory.appendNode s (bs.getLastD 0) size).mem s.curHeapPos = _ ∧ _ := appendNode_ok ht.below
    (fun h0 => .inl (hlast.resolve_left h0).2)
  have ⟨_, hothers⟩ : (load (Memory.appendNode s (bs.getLastD 0) size).mem s.curHeapPos).size = _ ∧ _ := ht.appendNode_load ht.below
  have hsame : ∀ r ∈ bs, (load (Memory.appendNode s (bs.getLastD 0) size).mem r).prev = (load s.mem r).prev ∧
      (load (Memory.appendNode s (bs.getLastD 0) size).mem r).size = (load s.mem r).size ∧
      (Free (Memory.appendNode s (bs.getLastD 0) size).mem r → Free s.mem r) := by
    intro r hr
    obtain ⟨n, hn, -⟩ := hothers r hr
    rw [Free, hn]
    exact ⟨rfl, rfl, id⟩
  refine ⟨isChain_at.mpr ⟨(h.congr hsame).chain, ⟨?_, ?_⟩, List.isChain_singleton _⟩, fun r hr => ?_⟩
  · rw [hcur]
    have hbelow := ht.below
    exact u32_eq (by omega)
  · exact .inr fun hf => not_free_of_used (by rw [hcur]) hf.right
  · rcases List.mem_append.mp hr with hr | hr
    · exact (h.congr hsame).aligned r hr
    · rw [List.mem_singleton.mp hr, hcur]
      exact hsize

end Coupled

/-- What is left behind a forward merge is joint, and begins with a used block. -/
lemma JoinedNext.rest_joint (hj : JoinedNext m m' p l l' l'') (h : (p :: l').IsChain (Joint m)) (h0 : 0 ∉ l') :
    l''.IsChain (Joint m) ∧ ∀ r ∈ l''.head?, ¬ Free m r := by
  rcases hj.rest with ⟨rfl, -, hused⟩ | ⟨q, rfl, hfree, -⟩
  · exact ⟨h.tail, hused⟩
  · refine ⟨h.tail.tail, fun r hr hf => ?_⟩
    have hqr : Joint m q r := h.tail.rel_head? hr
    refine hqr.right.resolve_left ?_ ⟨hfree, hf⟩
    rintro rfl
    exact h0 (by simp)

lemma JoinedPrev.loads {t : Heap} (hj : JoinedPrev m m' q p l l') (h : Strides t (l ++ q :: l')) :
    (∀ r ∈ l, load m' r = load m r) ∧ (∀ r ∈ l'.head?, load m' r = { load m r with prev := q }) ∧
      ∀ r ∈ l'.tail, load m' r = load m r := by
  have hnd := h.nodup
  refine ⟨fun r hr => hj.others r (List.mem_append_left _ hr) ?_, fun r hr => ?_, fun r hr => ?_⟩
  · cases l' with
    | nil => exact h.ne_zero (by simp [hr])
    | cons y t =>
      rintro rfl
      exact (List.nodup_append.mp hnd).2.2 _ hr _ (by simp) rfl
  · cases l' with
    | nil => cases hr
    | cons y t =>
      obtain rfl := Option.some.inj hr
      exact hj.head (h.ne_zero (by simp))
  · cases l' with
    | nil => cases hr
    | cons y t =>
      have hr' : r ∈ t := hr
      refine hj.others r (by simp [hr']) ?_
      rintro rfl
      exact (List.nodup_cons.mp (List.nodup_cons.mp (List.nodup_append.mp hnd).2.1).2).1 hr

lemma JoinedNext.mem_of_mem {r : ℕ} (hj : JoinedNext m m' p l l' l'') (hr : r ∈ l'') : r ∈ l' := by
  rcases hj.rest with ⟨rfl, -⟩ | ⟨q, rfl, -⟩
  · exact hr
  · exact List.mem_cons_of_mem q hr

lemma JoinedNext.aligned (hj : JoinedNext m m' p l l' l'') (h : ∀ r ∈ p :: l', (load m r).size % SIZEOF_MEM_HEADER = 0) :
    (load m' p).size % SIZEOF_MEM_HEADER = 0 := by
  have hp := h p (by simp)
  rw [SIZEOF_MEM_HEADER] at *
  rcases hj.rest with ⟨-, hsize, -⟩ | ⟨q, rfl, -, hsize⟩
  · omega
  · have hq := h q (by simp)
    rw [SIZEOF_MEM_HEADER] at *
    omega

lemma Tiled.unique {t : Heap} (h : Tiled t bs) (h' : Tiled t l) : bs = l := h.walk.unique (lt_stride _) h'.walk

/-- The block behind a free block that `p` takes in is linked back to that still, unless there is none, or `p` is
taken in itself. -/
def Relinks (m : Mem) (p : ℕ) : Prop :=
  NextFree m p → (load m (load m p).next).next = 0 ∨ (load m p).prev ≠ 0 ∧ Free m (load m p).prev

lemma Relinks.eq_nil (hlink : Relinks s.mem p) (ht : Tiled s (l ++ p :: q :: l')) (hfree : Free s.mem q)
    (hback : ¬ ((load s.mem p).prev ≠ 0 ∧ Free s.mem (load s.mem p).prev)) : l' = [] := by
  have ht' : Tiled s (l ++ [p] ++ q :: l') := by simpa using ht
  have hnext : (load s.mem p).next = q := ht.next_eq
  have hq0 : q ≠ 0 := ht.strides.ne_zero (by simp)
  have hlast := hlink ⟨by rw [hnext]; exact hq0, by rw [hnext]; exact hfree⟩
  rw [hnext, ht'.next_eq] at hlast
  cases l' with
  | nil => rfl
  | cons r l' => exact absurd (hlast.resolve_right hback) (ht.strides.ne_zero (by simp))

namespace Coupled

lemma joinedNext (h : Coupled s.mem (l ++ p :: l')) (ht : Tiled s (l ++ p :: l')) (hj : JoinedNext s.mem m p l l' l'')
    (hlink : Relinks s.mem p) (hback : ¬ ((load s.mem p).prev ≠ 0 ∧ Free s.mem (load s.mem p).prev)) :
    Coupled m (l ++ p :: l'') := by
  obtain ⟨hl, hp, hl'⟩ := isChain_at.mp h.chain
  have h0 : 0 ∉ l' := fun h0 => ht.strides.ne_zero (p := 0) (by simp [h0]) rfl
  obtain ⟨hrest, hhead⟩ := hj.rest_joint hl' h0
  have hsame : ∀ r ∈ l ++ l'', (load m r).prev = (load s.mem r).prev ∧ (Free m r → Free s.mem r) := by
    intro r hr
    rw [Free, hj.others r hr]
    exact ⟨rfl, id⟩
  refine ⟨isChain_at.mpr ⟨?_, ⟨hj.prev.trans hp.left, ?_⟩, List.isChain_cons.mpr ⟨fun r hr => ?_, ?_⟩⟩, fun r hr => ?_⟩
  · exact chain_congr hl (.inl rfl) fun r hr => hsame r (List.mem_append_left _ hr)
  · -- the block before is used, or there is none
    rw [hp.left] at hback
    rcases getLastD_mem (a := 0) (l := l) with hl0 | hlast
    · exact .inl hl0
    · refine .inr fun hf => hback ⟨ht.strides.ne_zero (List.mem_append_left _ hlast), ?_⟩
      exact (hsame _ (List.mem_append_left _ hlast)).right hf.left
  · have hr' := hsame r (List.mem_append_right _ (List.mem_of_mem_head? hr))
    refine ⟨?_, .inr fun hf => hhead r hr (hr'.right hf.right)⟩
    rcases hj.rest with ⟨rfl, -⟩ | ⟨q, rfl, hfree, -⟩
    · exact hr'.left.trans (hl'.rel_head? hr).left
    · rw [hlink.eq_nil ht hfree hback] at hr
      cases hr
  · exact hrest.imp_of_mem_tail_imp fun a b ha hb hjoint => hjoint.congr (.inr (hsame a (List.mem_append_right _ ha)).right)
      (hsame b (List.mem_append_right _ (List.mem_of_mem_tail hb))).left
      (hsame b (List.mem_append_right _ (List.mem_of_mem_tail hb))).right
  · by_cases hrp : r = p
    · rw [hrp]
      exact hj.aligned fun r hr => h.aligned r (List.mem_append_right _ hr)
    · have hr' := mem_of_split hr hrp
      rw [hj.others r hr']
      refine h.aligned r (mem_split ?_)
      exact List.mem_append.mpr ((List.mem_append.mp hr').imp_right hj.mem_of_mem)

lemma joinedPrev (h : Coupled s.mem (l ++ [q] ++ p :: l')) (ht : Tiled s (l ++ [q] ++ p :: l'))
    (hj : JoinedNext s.mem m p (l ++ [q]) l' l'') (hj' : JoinedPrev m m' q p l l'') (ht' : Tiled { s with mem := m' } (l ++ q :: l'')) :
    Coupled m' (l ++ q :: l'') := by
  obtain ⟨hlq, -, hl'⟩ := isChain_at.mp h.chain
  obtain ⟨hl, hq, -⟩ := isChain_at.mp hlq
  have h0 : 0 ∉ l' := fun h0 => ht.strides.ne_zero (p := 0) (by simp [h0]) rfl
  obtain ⟨hrest, hhead⟩ := hj.rest_joint hl' h0
  have hqs : load m q = load s.mem q := hj.others q (by simp)
  have hqfree : Free m' q → Free s.mem q := by
    rw [Free, hj'.block, Free, ← hqs]
    exact id
  have hmem : ∀ r ∈ l ++ l'', load m r = load s.mem r := fun r hr => hj.others r (mem_split_snoc hr)
  obtain ⟨hbefore, hhead', htail⟩ := hj'.loads ht'.strides
  have hlsame : ∀ r ∈ l, load m' r = load s.mem r := fun r hr => (hbefore r hr).trans (hmem r (List.mem_append_left _ hr))
  replace hhead' : ∀ r ∈ l''.head?, load m' r = { load s.mem r with prev := q } := by
    intro r hr
    rw [hhead' r hr, hmem r (List.mem_append_right _ (List.mem_of_mem_head? hr))]
  replace htail : ∀ r ∈ l''.tail, load m' r = load s.mem r := fun r hr =>
    (htail r hr).trans (hmem r (List.mem_append_right _ (List.mem_of_mem_tail hr)))
  have hbehind : ∀ r ∈ l'', (load m' r).size = (load s.mem r).size ∧ (Free m' r → Free s.mem r) := by
    intro r hr
    cases l'' with
    | nil => cases hr
    | cons y t =>
      rcases List.mem_cons.mp hr with rfl | hr
      · rw [Free, hhead' r rfl]
        exact ⟨rfl, id⟩
      · rw [Free, htail r hr]
        exact ⟨rfl, id⟩
  refine ⟨isChain_at.mpr ⟨?_, hq.congr ?_ ?_ hqfree, List.isChain_cons.mpr ⟨fun r hr => ⟨?_, .inr fun hf => ?_⟩, ?_⟩⟩, fun r hr => ?_⟩
  · refine chain_congr hl (.inl rfl) fun r hr => ?_
    rw [Free, hlsame r hr]
    exact ⟨rfl, id⟩
  · refine (getLastD_mem (a := 0) (l := l)).imp_right fun hlast => ?_
    rw [Free, hlsame _ hlast]
    exact id
  · rw [hj'.block, hqs]
  · rw [hhead' r hr]
  · exact hhead r hr ((hbehind r (List.mem_of_mem_head? hr)).right hf.right)
  · refine hrest.imp_of_mem_tail_imp fun a b ha hb hjoint => hjoint.congr (.inr (hbehind a ha).right) ?_
      (hbehind b (List.mem_of_mem_tail hb)).right
    rw [htail b hb]
  · have haligned : ∀ r ∈ l ++ [q] ++ p :: l', (load s.mem r).size % SIZEOF_MEM_HEADER = 0 := h.aligned
    rcases List.mem_append.mp hr with hr | hr
    · rw [hlsame r hr]
      exact haligned r (by simp [hr])
    · rcases List.mem_cons.mp hr with rfl | hr
      · have hp := hj.aligned fun r hr => haligned r (List.mem_append_right _ hr)
        have hr := haligned r (by simp)
        rw [hj'.block, hqs]
        rw [SIZEOF_MEM_HEADER] at *
        dsimp only
        omega
      · rw [(hbehind r hr).left]
        exact haligned r (by simp [hj.mem_of_mem hr])

end Coupled

lemma Tiled.kfree_coupled (h : Tiled s (l ++ p :: l')) (ht : Coupled s.mem (l ++ p :: l')) (hlink : Relinks s.mem p) :
    ∃ bs', Freed s (kfree s (p + SIZEOF_MEM_HEADER)) (l ++ p :: l') bs' p ∧ Coupled (kfree s (p + SIZEOF_MEM_HEADER)).mem bs' := by
  have hback : (load s.mem p).prev ≠ 0 → Free s.mem (load s.mem p).prev → ∃ l₀, l = l₀ ++ [(load s.mem p).prev] :=
    fun h0 _ => ht.prev_back h0
  obtain ⟨bs', hf⟩ := h.kfree_ok hback
  have htiled := hf.tiled
  refine ⟨bs', hf, ?_⟩
  obtain ⟨m, l'', htm, hj, hcase⟩ := h.kfree_joined hback
  rcases hcase with ⟨he, hno⟩ | ⟨l₀, q, m', rfl, -, he, htm', hj', -⟩
  · rw [he] at htiled ⊢
    rw [htiled.unique htm]
    exact ht.joinedNext h hj hlink hno
  · rw [he] at htiled ⊢
    rw [htiled.unique htm']
    exact ht.joinedPrev h hj hj' htm'

/-- The headers after a block grew into the free block `q` behind it, or gave a part of itself to that. -/
lemma growNode_links (hn : (load m p).next = q) (hq : stride m p = q) (h32 : stride m q < 2 ^ 32)
    (hs : size < (load m q).size + (load m p).size) {z : ℕ} (hz : z = p + SIZEOF_MEM_HEADER + size) (hzq : z = q ∨ Apart z q) :
    load (growNode m p q size) p = { load m p with size := size, next := z } ∧
    load (growNode m p q size) z = ⟨(load m q).size + (load m p).size - size, HEAP_FREE, p, (load m q).next⟩ ∧
    Only m (growNode m p q size) [p, z] := by
  have hps := hq
  rw [stride] at hps h32
  have hover : (load m p).size ≤ size ∨ size + 4 < (load m p).size := by
    rw [Apart, SIZEOF_MEM_HEADER] at hzq
    rw [SIZEOF_MEM_HEADER] at hz hps
    omega
  obtain ⟨hg, ho⟩ := growNode_writes hq (by rwa [stride]) hs hover hz rfl rfl
  have hpz : Apart p z := .inl (by omega)
  have hzp := hpz.symm
  have hsize : u32 size = size := u32_eq (by omega)
  have hrest : u32 ((load m q).size + (load m p).size - size) = (load m q).size + (load m p).size - size := u32_eq (by omega)
  have hp32 : u32 p = p := u32_eq (by omega)
  have hz32 : u32 z = z := u32_eq (by omega)
  have hn32 := (u32_load m q).2.2
  have hpq : Apart p q := .inl (hq ▸ header_le_stride m p)
  -- the link of the block behind is read after the new header was begun
  have hnext : (load (setSize (setStatus (setSize m p size) z HEAP_FREE) z ((load m q).size + (load m p).size - size)) q).next =
      (load m q).next := by
    rcases hzq with rfl | hzq
    · rw [load_setSize, load_setStatus, load_setSize_of_apart hpz]
    · rw [load_setSize_of_apart hzq, load_setStatus_of_apart hzq, load_setSize_of_apart hpq]
  have hnode : (load (setSize (setStatus (setSize m p size) z HEAP_FREE) z ((load m q).size + (load m p).size - size)) p).next =
      q := by
    rw [load_setSize_of_apart hzp, load_setStatus_of_apart hzp, load_setSize, hn]
  rw [hnode, hnext] at hg
  refine ⟨?_, ?_, ho⟩
  · simp only [hg, load_setNext, load_setPrev_of_apart hzp, load_setNext_of_apart hzp, load_setSize_of_apart hzp,
      load_setStatus_of_apart hzp, load_setSize, hsize, hz32]
  · simp only [hg, load_setNext_of_apart hpz, load_setPrev, load_setNext, load_setSize, load_setStatus, hrest, hp32, hn32]

/-- The headers after the boundary between `p` and the free block `q` behind it moved to `z`, with the blocks `l` before the
two and `l'` behind. -/
structure Grown (m m' : Mem) (p q z size : ℕ) (l l' : List ℕ) : Prop where
  block : load m' p = { load m p with size := size, next := z }
  rest : load m' z = ⟨(load m q).size + (load m p).size - size, HEAP_FREE, p, (load m q).next⟩
  others : ∀ r ∈ l ++ l', load m' r = load m r

namespace Grown

variable {z : ℕ}

lemma kept (hg : Grown m m' p q z size l l') {r : ℕ} (hr : r ∈ l ++ p :: l') :
    (load m' r).prev = (load m r).prev ∧ (load m' r).status = (load m r).status := by
  by_cases hrp : r = p
  · rw [hrp, hg.block]
    exact ⟨rfl, rfl⟩
  · rw [hg.others r (mem_of_split hr hrp)]
    exact ⟨rfl, rfl⟩

lemma links (hg : Grown s.mem m' p q z size l l') (h : Tiled s (l ++ p :: q :: l')) (hpz : p < z) :
    Chain (fun r => (load m' r).next) ((l ++ p :: z :: l').headD 0) (l ++ p :: z :: l') := by
  have hhead : (l ++ p :: z :: l').headD 0 = (l ++ p :: q :: l').headD 0 := by cases l <;> rfl
  rw [hhead]
  obtain ⟨a, hl, rfl, hp0, -, hq0, hl'⟩ := seg_append.mp h.links
  refine seg_append.mpr ⟨_, hl.congr fun r hr => ?_, rfl, hp0, congrArg MemHeader.next hg.block, by omega, ?_⟩
  · exact congrArg MemHeader.next (hg.others r (by simp [hr]))
  · change Seg _ (load m' z).next l' 0
    rw [hg.rest]
    exact hl'.congr fun r hr => congrArg MemHeader.next (hg.others r (by simp [hr]))

lemma tiled (hg : Grown s.mem m' p q z size l l') (h : Tiled s (l ++ p :: q :: l')) (ho : Only s.mem m' [p, z])
    (hwalk : Seg (stride m') s.heapStart (l ++ p :: z :: l') s.curHeapPos) (hpz : p + SIZEOF_MEM_HEADER ≤ z)
    (hz : z + SIZEOF_MEM_HEADER ≤ stride s.mem q) : Tiled { s with mem := m' } (l ++ p :: z :: l') := by
  have hlt : p < z := hpz.trans_lt' (Nat.lt_add_of_pos_right (by decide))
  refine ⟨h.start, h.region, h.room, hwalk, hg.links h hlt, fun r hr => ?_, ?_⟩
  · change (load m' r).prev = 0 ∨ (load m' r).prev + SIZEOF_MEM_HEADER ≤ r
    rcases mem_behind.mp hr with rfl | hr
    · rw [hg.rest]
      exact .inr hpz
    · rw [(hg.kept hr).left]
      exact h.back r (mem_behind.mpr (.inr hr))
  · refine h.blank_of_only ho fun r hr => ?_
    simp only [List.mem_cons, List.not_mem_nil, or_false] at hr
    rcases hr with rfl | rfl
    · exact h.strides.header_le (by simp)
    · exact hz.trans (h.strides.stride_le (by simp))

lemma coupled (hg : Grown m m' p q z size l l') (h : Coupled m (l ++ p :: q :: l')) (hu : (load m p).status = HEAP_USED)
    (hfree : Free m q) (hal : size % SIZEOF_MEM_HEADER = 0) (hs : size < (load m q).size + (load m p).size)
    (hlast : l' = [] ∨ z = q) : Coupled m' (l ++ p :: z :: l') := by
  have hsame : ∀ r ∈ l ++ p :: l', (load m' r).prev = (load m r).prev ∧ (Free m' r → Free m r) := by
    intro r hr
    rw [Free, (hg.kept hr).right]
    exact ⟨(hg.kept hr).left, id⟩
  refine ⟨?_, fun r hr => ?_⟩
  · obtain ⟨hl, hjoint, hrest⟩ := isChain_at.mp h.chain
    refine isChain_at.mpr ⟨?_, hjoint.congr ?_ (hsame p (by simp)).left (hsame p (by simp)).right, ?_⟩
    · exact chain_congr hl (.inl rfl) fun r hr => hsame r (by simp [hr])
    · exact (getLastD_mem (a := 0) (l := l)).imp_right fun hlast => (hsame _ (List.mem_append_left _ hlast)).right
    · refine List.isChain_cons_cons.mpr ⟨⟨congrArg MemHeader.prev hg.rest, .inr fun hf => ?_⟩, ?_⟩
      · exact not_free_of_used hu ((hsame p (by simp)).right hf.left)
      · -- the block behind `z` is linked back to it where the boundary has not moved
        rcases hlast with rfl | rfl
        · exact List.isChain_singleton z
        · exact chain_congr hrest.tail (.inr fun _ => hfree) fun r hr => hsame r (by simp [hr])
  · have hpal := h.aligned p (by simp)
    have hqal := h.aligned q (by simp)
    rcases mem_behind.mp hr with rfl | hr
    · rw [hg.rest]
      rw [SIZEOF_MEM_HEADER] at *
      dsimp only
      omega
    · by_cases hrp : r = p
      · rw [hrp, hg.block]
        exact hal
      · rw [hg.others r (mem_of_split hr hrp)]
        exact h.aligned r (mem_behind.mpr (.inr hr))

end Grown

lemma Tiled.growNode_grown (h : Tiled s (l ++ p :: q :: l')) (hs : size < (load s.mem q).size + (load s.mem p).size) {z : ℕ}
    (hz : z = p + SIZEOF_MEM_HEADER + size) (hzq : z = q ∨ Apart z q) :
    Grown s.mem (growNode s.mem p q size) p q z size l l' ∧ Only s.mem (growNode s.mem p q size) [p, z] ∧
      z + SIZEOF_MEM_HEADER ≤ stride s.mem q := by
  have hq : stride s.mem p = q := h.strides.stride_eq
  have h' : Tiled s (l ++ [p] ++ q :: l') := by simpa using h
  obtain ⟨hp, hrest, ho⟩ := growNode_links h.next_eq hq (h.strides.lt_two_pow (p := q) (by simp)) hs hz hzq
  have hzs : z + SIZEOF_MEM_HEADER ≤ stride s.mem q := by
    rw [stride] at hq ⊢
    omega
  refine ⟨⟨hp, hrest, fun r hr => ho.load_eq fun a ha => ?_⟩, ho, hzs⟩
  have hra : Apart p r := h.strides.apart_within le_rfl (header_le_stride ..) (mem_split hr)
  simp only [List.mem_cons, List.not_mem_nil, or_false] at ha
  rcases ha with rfl | rfl
  · exact hra
  · rcases List.mem_append.mp hr with hr | hr
    · refine .inr ((header_le_stride s.mem r).trans ((h.strides.before hr).trans ?_))
      omega
    · exact .inl (hzs.trans (h'.strides.behind hr))

/-- The boundary between `p` and the free block behind it moves; that is the last one, or the boundary stays where it is. -/
lemma Tiled.growNode_coupled (h : Tiled s (l ++ p :: q :: l')) (ht : Coupled s.mem (l ++ p :: q :: l'))
    (hu : (load s.mem p).status = HEAP_USED) (hfree : Free s.mem q) (hs : size < (load s.mem q).size + (load s.mem p).size)
    (hal : size % SIZEOF_MEM_HEADER = 0) (hlast : l' = [] ∨ size = (load s.mem p).size) :
    ∃ z, Tiled { s with mem := growNode s.mem p q size } (l ++ p :: z :: l') ∧
      Coupled (growNode s.mem p q size) (l ++ p :: z :: l') ∧
      ∀ r ∈ l ++ p :: l', (load (growNode s.mem p q size) r).status = (load s.mem r).status := by
  have hq : stride s.mem p = q := h.strides.stride_eq
  have hpal := ht.aligned p (by simp)
  set z := p + SIZEOF_MEM_HEADER + size with hz
  rw [stride] at hq
  -- sizes are multiples of a header's, so the new header is where the old one was or clear of it
  have hzq : z = q ∨ Apart z q := by
    rw [SIZEOF_MEM_HEADER] at *
    rw [Apart, SIZEOF_MEM_HEADER]
    omega
  have hover : (load s.mem p).size ≤ size ∨ size + 4 < (load s.mem p).size := by
    rw [SIZEOF_MEM_HEADER] at *
    omega
  have hlast' : l' = [] ∨ z = q := hlast.imp_right fun hsize => by omega
  obtain ⟨hg, ho, hzs⟩ := h.growNode_grown hs hz hzq
  have hwalk := (h.growNode_ok hu hfree hs.le (Nat.zero_le size) hover).walk
  exact ⟨z, hg.tiled h ho hwalk (by omega) hzs, hg.coupled ht hu hfree hal hs hlast', fun r hr => (hg.kept hr).right⟩

end WordOS.Memory
