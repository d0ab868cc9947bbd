import WordOS.Memory.HeapTiling

/-! What `kfree` does to a tiled heap whose freed block has no stale link to a free one. -/

namespace WordOS.Memory

open Machine Lib.Bytes Lib.LinkedList

/-- The used blocks of `s` other than `p` are used blocks of `t`. -/
structure Freed (s t : Heap) (bs bs' : List ℕ) (p : ℕ) : Prop where
  tiled : Tiled t bs'
  keeps : ∀ q ∈ bs, q ≠ p → (load s.mem q).status = HEAP_USED → q ∈ bs' ∧ Kept s.mem t.mem q

/-- The headers after the forward merge at `p`, with the blocks `l` before it, and `l''` of `l'` left behind it. -/
structure JoinedNext (m m' : Mem) (p : ℕ) (l l' l'' : List ℕ) : Prop where
  only : Only m m' (p :: l')
  status : (load m' p).status = HEAP_FREE
  prev : (load m' p).prev = (load m p).prev
  others : ∀ r ∈ l ++ l'', load m' r = load m r
  rest : l'' = l' ∧ (load m' p).size = (load m p).size ∧ (∀ q ∈ l'.head?, (load m q).status ≠ HEAP_FREE) ∨
    ∃ q, l' = q :: l'' ∧ (load m q).status = HEAP_FREE ∧
      (load m' p).size = (load m p).size + (load m q).size + SIZEOF_MEM_HEADER

/-- The headers after the backward merge of `p` into `q`, with the blocks `l` before the two and `l'` behind. -/
structure JoinedPrev (m m' : Mem) (q p : ℕ) (l l' : List ℕ) : Prop where
  block : load m' q = { load m q with size := (load m q).size + (load m p).size + SIZEOF_MEM_HEADER, next := l'.headD 0 }
  head : l'.headD 0 ≠ 0 → load m' (l'.headD 0) = { load m (l'.headD 0) with prev := q }
  others : ∀ r ∈ l ++ l', r ≠ l'.headD 0 → load m' r = load m r

lemma JoinedNext.used_mem {m m' : Mem} {p r : ℕ} {l l' l'' : List ℕ} (h : JoinedNext m m' p l l' l'') (hr : r ∈ l')
    (hu : (load m r).status = HEAP_USED) : r ∈ l'' := by
  rcases h.rest with ⟨rfl, -⟩ | ⟨q, rfl, hq, -⟩
  · exact hr
  · refine (List.mem_cons.mp hr).resolve_left ?_
    rintro rfl
    rw [hq] at hu
    exact absurd hu (by decide)

namespace Tiled

variable {s : Heap} {l l' bs : List ℕ} {p q : ℕ} {m : Mem}

lemma setFree (h : Tiled s (l ++ p :: l')) (hm : m = setStatus s.mem p HEAP_FREE) :
    Tiled { s with mem := m } (l ++ p :: l') ∧ load m p = { load s.mem p with status := HEAP_FREE } ∧ Only s.mem m [p] ∧
      ∀ r ∈ l ++ l', load m r = load s.mem r := by
  have hp : load m p = { load s.mem p with status := HEAP_FREE } := hm ▸ load_setStatus
  have ho : Only s.mem m [p] := hm ▸ only_setStatus
  have hne : ∀ r ∈ l ++ l', load m r = load s.mem r := fun r hr =>
    ho.load_of_apart (h.strides.apart_within le_rfl (header_le_stride ..) hr)
  have hload : ∀ r ∈ l ++ p :: l', ∃ st, load m r = { load s.mem r with status := st } := by
    intro r hr
    by_cases hrp : r = p
    · subst hrp
      exact ⟨_, hp⟩
    · exact ⟨_, hne r (mem_of_split hr hrp)⟩
  refine ⟨h.congr ho (by simp) (fun r hr => ?_) fun r hr => ?_, hp, ho, hne⟩
  · obtain ⟨_, he⟩ := hload r hr
    rw [he]
    exact ⟨rfl, rfl⟩
  · obtain ⟨_, he⟩ := hload r hr
    exact .inl (by rw [he])

lemma mergeNext_ok (h : Tiled s (l ++ p :: q :: l')) :
    Tiled { s with mem := mergeNext s.mem p q } (l ++ p :: l') ∧
      load (mergeNext s.mem p q) p = { load s.mem p with
        size := (load s.mem p).size + (load s.mem q).size + SIZEOF_MEM_HEADER, next := (load s.mem q).next } ∧
      Only s.mem (mergeNext s.mem p q) [p, q] ∧ ∀ r ∈ l ++ l', load (mergeNext s.mem p q) r = load s.mem r := by
  have h' : Tiled s (l ++ [p] ++ q :: l') := by simpa using h
  have hpq : Apart p q := h.strides.apart_within le_rfl (header_le_stride ..) (by simp)
  obtain ⟨hmp, -, hmo⟩ := Memory.mergeNext_ok (m := s.mem) hpq
  have hother : ∀ r ∈ l ++ l', load (mergeNext s.mem p q) r = load s.mem r := by
    intro r hr
    have hrp : Apart p r := h.strides.apart_within le_rfl (header_le_stride ..) (mem_split hr)
    have hrq : Apart q r := h'.strides.apart_within le_rfl (header_le_stride ..) (mem_split_snoc hr)
    exact hmo.load_eq (by simp [hrp, hrq])
  have hq : stride s.mem p = q := h.strides.stride_eq
  have h32 : stride s.mem q < 2 ^ 32 := h.strides.lt_two_pow (p := q) (by simp)
  rw [stride] at hq h32
  have hsize : u32 ((load s.mem p).size + ((load s.mem q).size + SIZEOF_MEM_HEADER)) =
      (load s.mem p).size + (load s.mem q).size + SIZEOF_MEM_HEADER := by
    rw [← Nat.add_assoc]
    exact u32_eq (by omega)
  rw [hsize] at hmp
  refine ⟨h.fuse hmo (by simp) ?_ (by rw [hmp]) (fun r hr => by rw [hother r hr]; exact ⟨rfl, rfl⟩) fun r hr => ?_, hmp, hmo, hother⟩
  · rw [stride, stride, hmp]
    simp only []
    omega
  · by_cases hrp : r = p
    · subst hrp
      exact .inl (by rw [hmp])
    · exact .inl (congrArg MemHeader.prev (hother r (mem_of_split hr hrp)))

lemma joinNext_ok (h : Tiled s (l ++ p :: l')) (hm : m = setStatus s.mem p HEAP_FREE) :
    ∃ l'', Tiled { s with mem := joinNext m p (load m p).next } (l ++ p :: l'') ∧
      JoinedNext s.mem (joinNext m p (load m p).next) p l l' l'' := by
  obtain ⟨ht, hp, ho, hne⟩ := h.setFree hm
  have hnext : (load m p).next = l'.headD 0 := ht.next_eq
  have honly : Only s.mem m (p :: l') := ho.mono (by simp)
  have hsame : ∀ hq : ∀ q ∈ l'.head?, (load s.mem q).status ≠ HEAP_FREE, JoinedNext s.mem m p l l' l' := fun hq =>
    ⟨honly, by rw [hp], by rw [hp], hne, .inl ⟨rfl, by rw [hp], hq⟩⟩
  cases l' with
  | nil =>
    rw [joinNext, if_neg (by simp [hnext])]
    exact ⟨[], ht, hsame (by simp)⟩
  | cons q l' =>
    rw [hnext, List.headD_cons, joinNext]
    have hq0 : q ≠ 0 := h.strides.ne_zero (by simp)
    have hqs : load m q = load s.mem q := hne q (by simp)
    by_cases hfree : (load s.mem q).status = HEAP_FREE
    · rw [if_pos ⟨hq0, by rwa [hqs]⟩]
      obtain ⟨ht', hmp, hmo, hother⟩ := ht.mergeNext_ok
      refine ⟨l', ht', honly.trans (hmo.mono (by simp)), by rw [hmp, hp], by rw [hmp, hp], fun r hr => ?_,
        .inr ⟨q, rfl, hfree, by rw [hmp, hqs, hp]⟩⟩
      exact (hother r hr).trans (hne r (mem_split hr))
    · rw [if_neg (by simp [hqs, hfree])]
      exact ⟨q :: l', ht, hsame (by simpa using hfree)⟩

lemma mergePrev_joined (h : Tiled s (l ++ q :: p :: l')) : ∃ ps, Only s.mem (mergePrev s.mem p q) ps ∧
    (∀ r ∈ ps, r ∈ l ++ q :: p :: l') ∧ JoinedPrev s.mem (mergePrev s.mem p q) q p l l' := by
  have hp : Tiled s (l ++ [q] ++ p :: l') := by simpa using h
  have hqp : stride s.mem q = p := h.strides.stride_eq
  have h32 := h.strides.lt_two_pow (p := p) (by simp)
  rw [stride] at hqp h32
  have hapart : ∀ r ∈ l ++ l', Apart p r ∧ Apart q r := by
    intro r hr
    refine ⟨hp.strides.apart_within le_rfl (header_le_stride ..) ?_, h.strides.apart_within le_rfl (header_le_stride ..) ?_⟩
    · exact mem_split_snoc hr
    · exact mem_split hr
  have hhead : l'.headD 0 ≠ 0 → l'.headD 0 ∈ l ++ l' := by
    cases l' <;> simp
  obtain ⟨hmq, hmn, hmo⟩ := mergePrev_ok (hp.strides.apart_within le_rfl (header_le_stride ..) (by simp)) hp.next_eq
    (fun h0 => (hapart _ (hhead h0)).1.symm) (fun h0 => (hapart _ (hhead h0)).2.symm)
  have hmem : ∀ {r}, r ∈ l ++ l' → r ∈ l ++ q :: p :: l' := fun hr => mem_split (mem_split hr)
  have hsize : u32 ((load s.mem q).size + ((load s.mem p).size + SIZEOF_MEM_HEADER)) =
      (load s.mem q).size + (load s.mem p).size + SIZEOF_MEM_HEADER := by
    rw [← Nat.add_assoc]
    exact u32_eq (by omega)
  have hq32 : u32 q = q := u32_eq (by omega)
  refine ⟨_, hmo, fun r hr => ?_, by rw [hmq, hsize], fun h0 => by rw [hmn h0, hq32], fun r hr hrn => hmo.load_eq fun a ha => ?_⟩
  · simp only [List.mem_cons] at hr
    rcases hr with rfl | rfl | hr
    · simp
    · simp
    · split_ifs at hr with h0
      · simp at hr
      · obtain rfl := List.mem_singleton.mp hr
        exact hmem (hhead h0)
  · simp only [List.mem_cons] at ha
    rcases ha with rfl | rfl | ha
    · exact (hapart r hr).1
    · exact (hapart r hr).2
    · split_ifs at ha with h0
      · simp at ha
      · obtain rfl := List.mem_singleton.mp ha
        exact h.strides.apart (hmem (hhead h0)) (hmem hr) (Ne.symm hrn)

lemma joinPrev_ok (h : Tiled s (l ++ q :: p :: l')) (hf : (load s.mem q).status = HEAP_FREE) :
    Tiled { s with mem := joinPrev s.mem p q } (l ++ q :: l') ∧ JoinedPrev s.mem (joinPrev s.mem p q) q p l l' ∧
      ∀ r ∈ l ++ l', Kept s.mem (joinPrev s.mem p q) r := by
  have hp : Tiled s (l ++ [q] ++ p :: l') := by simpa using h
  have hn : (load s.mem p).next = l'.headD 0 := hp.next_eq
  have hqp : stride s.mem q = p := h.strides.stride_eq
  rw [stride] at hqp
  rw [joinPrev, if_pos ⟨h.strides.ne_zero (by simp), hf⟩]
  obtain ⟨ps, hmo, hps, hj⟩ := h.mergePrev_joined
  have hmem : ∀ {r}, r ∈ l ++ l' → r ∈ l ++ q :: p :: l' := fun hr => mem_split (mem_split hr)
  have hhead : l'.headD 0 ≠ 0 → l'.headD 0 ∈ p :: l' := by
    cases l' <;> simp
  have hload : ∀ r ∈ l ++ l', load (mergePrev s.mem p q) r = load s.mem r ∨
      load (mergePrev s.mem p q) r = { load s.mem r with prev := q } ∧ q + SIZEOF_MEM_HEADER ≤ r := by
    intro r hr
    by_cases hrn : r = l'.headD 0
    · have h0 : l'.headD 0 ≠ 0 := hrn ▸ h.strides.ne_zero (hmem hr)
      rw [hrn]
      exact .inr ⟨hj.head h0, (header_le_stride ..).trans (h.strides.behind (hhead h0))⟩
    · exact .inl (hj.others r hr hrn)
  refine ⟨h.fuse hmo hps ?_ (by rw [hj.block, hn]) (fun r hr => ?_) fun r hr => ?_, hj, fun r hr => ?_⟩
  · rw [stride, stride, hj.block]
    simp only []
    omega
  · rcases hload r hr with he | ⟨he, _⟩ <;> rw [he] <;> exact ⟨rfl, rfl⟩
  · by_cases hrq : r = q
    · subst hrq
      exact .inl (by rw [hj.block])
    · rcases hload r (mem_of_split hr hrq) with he | ⟨he, hle⟩
      · exact .inl (by rw [he])
      · exact .inr (by rwa [he])
  · refine h.strides.kept (hmem hr) hmo (fun a ha => .inl (hps a ha)) ?_ ?_
    all_goals rcases hload r hr with he | ⟨he, _⟩ <;> rw [he]

/-- The header the `prev` link of `p` leads to is that of the block right before `p`, or not marked free. -/
lemma kfree_joined (h : Tiled s (l ++ p :: l'))
    (hback : (load s.mem p).prev ≠ 0 → (load s.mem (load s.mem p).prev).status = HEAP_FREE →
      ∃ l₀, l = l₀ ++ [(load s.mem p).prev]) :
    ∃ m l'', Tiled { s with mem := m } (l ++ p :: l'') ∧ JoinedNext s.mem m p l l' l'' ∧
      (kfree s (p + SIZEOF_MEM_HEADER) = { s with mem := m } ∧
          ¬ ((load s.mem p).prev ≠ 0 ∧ (load s.mem (load s.mem p).prev).status = HEAP_FREE) ∨
        ∃ l₀ q m', l = l₀ ++ [q] ∧ (load s.mem q).status = HEAP_FREE ∧ kfree s (p + SIZEOF_MEM_HEADER) = { s with mem := m' } ∧
          Tiled { s with mem := m' } (l₀ ++ q :: l'') ∧ JoinedPrev m m' q p l₀ l'' ∧ ∀ r ∈ l₀ ++ l'', Kept m m' r) := by
  obtain ⟨l'', ht, hj⟩ := h.joinNext_ok rfl
  have hfree : kfree s (p + SIZEOF_MEM_HEADER) =
      { s with mem := joinPrev (joinNext (setStatus s.mem p HEAP_FREE) p
        (load (setStatus s.mem p HEAP_FREE) p).next) p (load s.mem p).prev } := by
    rw [kfree, Nat.add_sub_cancel]
    simp only [load_setStatus]
  rw [hfree]
  generalize joinNext (setStatus s.mem p HEAP_FREE) p (load (setStatus s.mem p HEAP_FREE) p).next = m at *
  have hsame : (load s.mem p).prev ≠ 0 → load m (load s.mem p).prev = load s.mem (load s.mem p).prev := by
    intro h0
    have hle := (h.back p (by simp)).resolve_left h0
    refine hj.only.load_eq fun a ha => .inr ?_
    rcases List.mem_cons.mp ha with rfl | ha
    · exact hle
    · have := h.strides.behind ha
      have := lt_stride s.mem p
      omega
  refine ⟨m, l'', ht, hj, ?_⟩
  by_cases hc : (load s.mem p).prev ≠ 0 ∧ (load s.mem (load s.mem p).prev).status = HEAP_FREE
  · obtain ⟨l₀, hl₀⟩ := hback hc.1 hc.2
    have hf := hc.2
    rw [← hsame hc.1] at hf
    generalize (load s.mem p).prev = q at *
    subst hl₀
    have ht' : Tiled { s with mem := m } (l₀ ++ q :: p :: l'') := by simpa using ht
    obtain ⟨ht₂, hj₂, hkept⟩ := ht'.joinPrev_ok hf
    exact .inr ⟨l₀, q, _, rfl, hc.2, rfl, ht₂, hj₂, hkept⟩
  · refine .inl ⟨?_, hc⟩
    rw [joinPrev, if_neg]
    rintro ⟨h0, hf⟩
    rw [hsame h0] at hf
    exact hc ⟨h0, hf⟩

lemma kfree_ok (h : Tiled s (l ++ p :: l'))
    (hback : (load s.mem p).prev ≠ 0 → (load s.mem (load s.mem p).prev).status = HEAP_FREE →
      ∃ l₀, l = l₀ ++ [(load s.mem p).prev]) :
    ∃ bs', Freed s (kfree s (p + SIZEOF_MEM_HEADER)) (l ++ p :: l') bs' p := by
  obtain ⟨m, l'', ht, hj, hcase⟩ := h.kfree_joined hback
  have hkeeps : ∀ r ∈ l ++ p :: l', r ≠ p → (load s.mem r).status = HEAP_USED → r ∈ l ++ l'' ∧ Kept s.mem m r := by
    intro r hr hrp hu
    have hr' : r ∈ l ++ l'' := by
      rcases List.mem_append.mp hr with hr | hr
      · exact List.mem_append_left _ hr
      · exact List.mem_append_right _ (hj.used_mem ((List.mem_cons.mp hr).resolve_left hrp) hu)
    refine ⟨hr', h.strides.kept hr hj.only (fun a ha => .inl (List.mem_append_right _ ha)) ?_ ?_⟩
    · rw [hj.others r hr']
    · rw [hj.others r hr']
  rcases hcase with ⟨he, -⟩ | ⟨l₀, q, m', rfl, hf, he, ht', -, hkept⟩
  · rw [he]
    refine ⟨_, ht, fun r hr hrp hu => ?_⟩
    obtain ⟨hr', hk⟩ := hkeeps r hr hrp hu
    exact ⟨mem_split hr', hk⟩
  · rw [he]
    refine ⟨l₀ ++ q :: l'', ht', fun r hr hrp hu => ?_⟩
    obtain ⟨hr', hk⟩ := hkeeps r hr hrp hu
    have hrq : r ≠ q := by
      rintro rfl
      rw [hf] at hu
      exact absurd hu (by decide)
    have hr₀ : r ∈ l₀ ++ l'' := by
      rw [List.append_assoc, List.singleton_append] at hr'
      exact mem_of_split hr' hrq
    exact ⟨mem_split hr₀, hk.trans (hkept r hr₀)⟩

end Tiled

end WordOS.Memory
