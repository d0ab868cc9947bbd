import WordOS.Memory.VmmRuns

/-! The bounds of the ranges that a VMM built by `create_vmm` gives away. -/

namespace WordOS.Memory

open Machine Utils Lib.Runs

def HasSlot (s : VmmState) (v : ℕ) : Prop := ∃ i < SLOTS, ¬ (s.nodes (slotsOf s v + 32 * i)).Taken

def rootSize (s : VmmState) (v : ℕ) : ℕ := (s.nodes (s.vmms v).root).size

/-- The first range has `high` bytes instead of `high - low`, so the last `low` bytes of what is
left of it are not to be touched. -/
def InRoom (s : VmmState) (v : ℕ) (c : PageRequest) : Prop :=
  rootSize s v ≤ c.rounded ∨ (s.vmms v).low + c.rounded ≤ rootSize s v ∧ HasSlot s v

/-- `NULL` is returned, or a range between `low` and `high`. -/
def Lies (low high : ℕ) (s : VmmState) (c : PageRequest) (r : ℕ) (t : VmmState) : Prop :=
  r = 0 ∧ t = s ∨ low ≤ pageOf r ∧ pageOf r + c.rounded ≤ high

/-- What has been carved off the first range lies between `low` and `base`. -/
structure Carved (s : VmmState) (v low high k base size : ℕ) : Prop where
  single : Single s v k base size
  sum : base + size = low + high
  le : low ≤ base
  lt : base < 2 ^ 32
  aligned : base % 4096 = 0
  low_eq : (s.vmms v).low = low

variable {s t : VmmState} {v low high k base size fuel r : ℕ} {c : PageRequest} {calls : List (PageRequest × ℕ)}

lemma pageOf_le (x : ℕ) : pageOf x ≤ x := Nat.sub_le ..

lemma pageOf_aligned (x : ℕ) : pageOf x % 4096 = 0 := by
  rw [pageOf]
  omega

lemma bytePgroundup_lt (x : ℕ) : bytePgroundup x < 2 ^ 32 :=
  (pageOf_le _).trans_lt (Nat.mod_lt _ (by norm_num))

lemma PageRequest.rounded_aligned (c : PageRequest) : c.rounded % 4096 = 0 := pageOf_aligned _

lemma pageOf_u32_add {x : ℕ} (hb : base % 4096 = 0) (hlt : base < 2 ^ 32) : pageOf (u32 (base + x % 4096)) = base := by
  rw [u32_eq (by omega), pageOf]
  omega

namespace Carved

lemma rootSize_eq (h : Carved s v low high k base size) : rootSize s v = size := by
  obtain ⟨id, color, hn, -⟩ := h.single.holds
  rw [rootSize, h.single.root, hn]

lemma lt_slots (h : Carved s v low high k base size) (hs : HasSlot s v) : k < SLOTS := by
  obtain ⟨i, hi, hn⟩ := hs
  by_contra hk
  exact hn (h.single.slots.taken i (by omega))

lemma pageAlloc_lt (h : Carved s v low high k base size) (hlt : c.rounded < size) (hk : k < SLOTS)
    (ha : Allocates v s (c, r) t) :
    pageOf r = base ∧ Single t v (k + 1) (u32 (base + c.rounded)) (size - c.rounded) ∧ (t.vmms v).low = low := by
  obtain ⟨ha⟩ := ha
  rcases h.single.pageAlloc (fun _ => hk) ha with ⟨hgt, -⟩ | ⟨-, hr, ht, -, hl⟩
  · exact absurd hgt (Nat.lt_asymm hlt)
  · exact ⟨by rw [hr, pageOf_u32_add h.aligned h.lt], ht, hl.trans h.low_eq⟩

lemma pageAlloc_ge (h : Carved s v low high k base size) (hge : size ≤ c.rounded) (ha : Allocates v s (c, r) t) :
    r = 0 ∧ t = s := by
  obtain ⟨ha⟩ := ha
  rcases h.single.pageAlloc (fun hlt => absurd hge (Nat.not_le.mpr hlt)) ha with ⟨-, hr, ht⟩ | ⟨hlt, -⟩
  · exact ⟨hr, ht⟩
  · exact absurd hge (Nat.not_le.mpr hlt)

lemma step (h : Carved s v low high k base size) (hh : high < 2 ^ 32) (hc : InRoom s v c) (ha : Allocates v s (c, r) t) :
    (∃ k base size, Carved t v low high k base size) ∧ Lies low high s c r t := by
  rw [InRoom, h.rootSize_eq, h.low_eq] at hc
  by_cases hge : size ≤ c.rounded
  · obtain ⟨rfl, rfl⟩ := h.pageAlloc_ge hge ha
    exact ⟨⟨k, base, size, h⟩, .inl ⟨rfl, rfl⟩⟩
  obtain ⟨hroom, hslot⟩ := hc.resolve_left hge
  obtain ⟨hr, ht, hl⟩ := h.pageAlloc_lt (Nat.lt_of_not_le hge) (h.lt_slots hslot) ha
  have hsum := h.sum
  have hle := h.le
  have hend : base + c.rounded ≤ high := by omega
  rw [u32_eq (hend.trans_lt hh)] at ht
  refine ⟨⟨_, _, _, ht, by omega, by omega, hend.trans_lt hh, ?_, hl⟩, .inr ⟨?_, ?_⟩⟩
  · have := h.aligned
    have := c.rounded_aligned
    omega
  · rw [hr]
    exact hle
  · rw [hr]
    exact hend

lemma not_lies (h : Carved s v low high k base size) (hs : HasSlot s v) (hc : ¬ InRoom s v c)
    (ha : Allocates v s (c, r) t) : ¬ Lies low high s c r t := by
  rw [InRoom, h.rootSize_eq, h.low_eq, not_or] at hc
  obtain ⟨hlt, hroom⟩ := hc
  obtain ⟨hr, ht, -⟩ := h.pageAlloc_lt (Nat.lt_of_not_le hlt) (h.lt_slots hs) ha
  have hsum := h.sum
  rintro (⟨-, rfl⟩ | ⟨-, hend⟩)
  · -- a slot was taken
    have htaken := ht.slots.taken k (Nat.lt_succ_self k)
    rw [h.single.slots.blank k le_rfl (h.lt_slots hs)] at htaken
    exact not_taken_blank htaken
  · rw [hr] at hend
    exact hroom ⟨by omega, hs⟩

end Carved

/-- A call that stays in the room of the VMM at `v`. -/
def AllocatesInRoom (v : ℕ) (s : VmmState) (a : PageRequest × ℕ) (t : VmmState) : Prop :=
  Allocates v s a t ∧ InRoom s v a.1

lemma run_carved (h : Carved s v low high k base size) (hh : high < 2 ^ 32) (hrun : Run (AllocatesInRoom v) s calls t) :
    ∃ k base size, Carved t v low high k base size :=
  hrun.invariant (I := fun s => ∃ k base size, Carved s v low high k base size)
    (fun _ _ _ ⟨_, _, _, h⟩ hs => (h.step hh hs.2 hs.1).1) ⟨k, base, size, h⟩

lemma createVmm_carved {rootPd storePage : ℕ} (hm : createVmm fuel s rootPd low high storePage = .ok (v, t)) (k : ℕ) :
    Carved { t with kernelVmm := k } v (bytePgroundup low) high 1 (bytePgroundup low) high := by
  obtain ⟨h, hl⟩ := createVmm_single hm
  exact ⟨h k, rfl, le_rfl, bytePgroundup_lt low, pageOf_aligned _, hl⟩

/-- After calls that stayed in the room, the next one lies between the bounds if and only if
it stays in the room too. `kernel` is `kernel_vmm` after the creation. -/
theorem createVmm_lies_iff {rootPd storePage kernel : ℕ} (hh : high < 2 ^ 32)
    (hm : createVmm fuel s rootPd low high storePage = .ok (v, t)) {u w : VmmState}
    (hrun : Run (AllocatesInRoom v) { t with kernelVmm := kernel } calls u) (ha : Allocates v u (c, r) w) :
    (InRoom u v c → Lies (bytePgroundup low) high u c r w) ∧
      (HasSlot u v → Lies (bytePgroundup low) high u c r w → InRoom u v c) := by
  obtain ⟨k, base, size, h⟩ := run_carved (createVmm_carved hm kernel) hh hrun
  exact ⟨fun hc => (h.step hh hc ha).2, fun hs hl => by_contra fun hc => h.not_lies hs hc ha hl⟩

/-- A page directory in frame 1 with one table, for the addresses below 0x400000. -/
def lowTable : Paging where
  phys := fun f i => if f = 1 then if i = 1023 then 0x1003 else if i = 0 then 0x2003 else 0 else 0
  pmm := ⟨fun _ => 0, NUM_FRAMES⟩
  cr3 := 1
  pdpt := fun _ => 0
  maxBitExtension := 36

def noVmm : VmmState := ⟨fun _ => blankNode, fun _ => ⟨0, 0, 0, 0, 0, 0, 0, 0⟩, 0, lowTable⟩

/-- `create_vmm`, and one call on the VMM it built as the kernel's. -/
def createAndAlloc (high : ℕ) (c : PageRequest) : Exec (VmmState × ℕ × VmmState) := do
  let (v, t) ← createVmm 3 noVmm 1 0x10000 high 0xCC000000
  let (r, u) ← vmmPageAlloc 3 { t with kernelVmm := 0xCC000000 } v c.length c.flags c.phys c.paeEnabled
  return (t, r, u)

lemma createVmm_store {rootPd storePage : ℕ} (h0 : storePage ≠ 0)
    (hm : createVmm fuel s rootPd low high storePage = .ok (v, t)) : v = storePage := by
  simp only [createVmm, if_neg h0, pure_eq, ok_bind] at hm
  obtain ⟨u, -, hm⟩ := bind_eq_ok.mp hm
  exact (Prod.mk.inj (Except.ok.inj hm)).1.symm

lemma createAndAlloc_ok (h : createAndAlloc high c = .ok (s, r, t)) :
    createVmm 3 noVmm 1 0x10000 high 0xCC000000 = .ok (0xCC000000, s) ∧
      Allocates 0xCC000000 { s with kernelVmm := 0xCC000000 } (c, r) t := by
  obtain ⟨⟨v, u⟩, hu, h⟩ := bind_eq_ok.mp h
  obtain rfl := createVmm_store (by decide) hu
  obtain ⟨⟨r', w⟩, hw, h⟩ := bind_eq_ok.mp h
  cases h
  exact ⟨hu, ⟨hw⟩⟩

theorem createVmm_lies_iff_two : ∃ t u w, createVmm 3 noVmm 1 0x10000 0x40000 0xCC000000 = .ok (0xCC000000, t) ∧
    Run (AllocatesInRoom 0xCC000000) { t with kernelVmm := 0xCC000000 } [(⟨5000, 3, 0, false⟩, 0x10000)] u ∧
    Allocates 0xCC000000 u (⟨4096, 3, 0, false⟩, 0x12000) w ∧
    Lies (bytePgroundup 0x10000) 0x40000 u ⟨4096, 3, 0, false⟩ 0x12000 w := by
  obtain ⟨⟨⟨t, r, u⟩, r', w⟩, h, hg⟩ := exists_of_toOption_map
    (x := createAndAlloc 0x40000 ⟨5000, 3, 0, false⟩ >>= fun p =>
      vmmPageAlloc 4 p.2.2 0xCC000000 4096 3 0 false >>= fun q => .ok (p, q))
    (g := fun ((t, r, u), r', _) => decide (r = 0x10000 ∧ r' = 0x12000 ∧
      (t.vmms 0xCC000000).low = 0x10000 ∧ rootSize t 0xCC000000 = 0x40000 ∧
      ¬ (t.nodes (slotsOf t 0xCC000000 + 32 * 1)).Taken ∧
      (u.vmms 0xCC000000).low = 0x10000 ∧ rootSize u 0xCC000000 = 0x3E000 ∧
      ¬ (u.nodes (slotsOf u 0xCC000000 + 32 * 2)).Taken)) (c := true) (by decide +kernel)
  obtain ⟨p, hp, h⟩ := bind_eq_ok.mp h
  obtain ⟨q, hq, h⟩ := bind_eq_ok.mp h
  cases h
  obtain ⟨rfl, rfl, hlow, hsize, hslot, hlow', hsize', hslot'⟩ := of_decide_eq_true hg
  obtain ⟨ht, hu⟩ := createAndAlloc_ok hp
  have hrun : Run (AllocatesInRoom 0xCC000000) { t with kernelVmm := 0xCC000000 } [(⟨5000, 3, 0, false⟩, 0x10000)] u := by
    refine .single ⟨hu, .inr ⟨?_, 1, by decide, hslot⟩⟩
    change (t.vmms 0xCC000000).low + _ ≤ rootSize t 0xCC000000
    rw [hlow, hsize]
    decide
  have hw : Allocates 0xCC000000 u (⟨4096, 3, 0, false⟩, 0x12000) w := ⟨hq⟩
  refine ⟨t, u, w, ht, hrun, hw, (createVmm_lies_iff (by decide) ht hrun hw).1 (.inr ⟨?_, 2, by decide, hslot'⟩)⟩
  rw [hlow', hsize']
  decide

/-- The range of a VMM of one page from 0x10000 on is cut off behind 0x11000. -/
theorem createVmm_beyond : ∃ t u, createVmm 3 noVmm 1 0x10000 0x11000 0xCC000000 = .ok (0xCC000000, t) ∧
    Run (Allocates 0xCC000000) { t with kernelVmm := 0xCC000000 } [(⟨8192, 3, 0, false⟩, 0x10000)] u ∧
    0x11000 < pageOf 0x10000 + PageRequest.rounded ⟨8192, 3, 0, false⟩ := by
  obtain ⟨⟨t, r, u⟩, h, hr⟩ := exists_of_toOption_map (x := createAndAlloc 0x11000 ⟨8192, 3, 0, false⟩)
    (g := fun (_, r, _) => r) (c := 0x10000) (by decide)
  obtain rfl : r = 0x10000 := hr
  obtain ⟨ht, hu⟩ := createAndAlloc_ok h
  exact ⟨t, u, ht, .single hu, by decide⟩

end WordOS.Memory
