import WordOS.Memory.PdTables

/-! The page tables that `_start` of `bootNP.s` fills, and its way to the higher half with them. -/

namespace WordOS.Boot

open Machine Memory Paging

def BOOTLOC : ℕ := 0xC0000000

/-- `_kernel_start` -/
def KERNEL_START : ℕ := 0x100000

/-- The kernel as it is linked: the physical address of `_kernel_end`, and the frames of the tables in its `.bss`. The table
`boot_page_table1` lies behind `boot_page_directory`. -/
structure Image where
  kernelEnd : ℕ
  bootPageDirectory : ℕ
  kernelPd : ℕ
  kernelPt : ℕ
  end_lt : kernelEnd < 2 ^ 30
  inside : ∀ f ∈ [bootPageDirectory, bootPageDirectory + 1, kernelPd, kernelPt], 256 ≤ f ∧ 4096 * (f + 1) ≤ kernelEnd
  low : ∀ f ∈ [bootPageDirectory, bootPageDirectory + 1, kernelPd, kernelPt], f < 1024
  distinct : [bootPageDirectory, bootPageDirectory + 1, kernelPd, kernelPt].Nodup

def storePhys (m : Phys) (a x : ℕ) : Phys := m.write32 (a / 4096) (a % 4096 / 4) x

/-- The loop `fill_garbage`, with `n` passes to go. -/
def fillGarbage : (n eax : ℕ) → Phys → Phys
  | 0, _, m => m
  | n + 1, eax, m => fillGarbage n (eax + 4) (storePhys (storePhys m eax 0) (eax + 4096) 0)

/-- The loop `1:`, with `n` in ECX. The comparisons are of signed numbers. -/
def mapImage (kernelEnd : ℕ) : (n esi edi : ℕ) → Phys → Phys
  | 0, _, _, m => m
  | n + 1, esi, edi, m =>
    if int32 esi < int32 KERNEL_START then mapImage kernelEnd n (esi + 4096) (edi + 4) m
    else if int32 kernelEnd ≤ int32 esi then m
    else mapImage kernelEnd n (esi + 4096) (edi + 4) (storePhys m edi (esi ||| 0x003))

namespace Image

variable (b : Image)

def bootPageTable1 : ℕ := b.bootPageDirectory + 1

def fillTables (m : Phys) : Phys :=
  let dir := 4096 * b.bootPageDirectory
  let table := 4096 * b.bootPageTable1
  let m := mapImage b.kernelEnd 1024 0 table (fillGarbage 1024 dir m)
  let m := storePhys m (dir + 4 * 0) (table + 0x003)
  let m := storePhys m (dir + 4 * 768) (table + 0x003)
  storePhys m (dir + 4 * 1023) (dir + 0x3)

def enablePaging (s : Paging) : Paging := { s with phys := b.fillTables s.phys, cr3 := b.bootPageDirectory }

/-- `_start` up to the call of `kernel_main`: the entry for the identity map is cleared from the higher half. -/
def start (s : Paging) : Exec Paging := (b.enablePaging s).store32 (BOOTLOC + 4096 * b.bootPageDirectory + 4 * 0) 0

/-- A page of the image has its own number as its frame. -/
def page (k : ℕ) : Option ℕ := if KERNEL_START ≤ 4096 * k ∧ 4096 * k < b.kernelEnd then some k else none

end Image

/-- What a directory in frame `d` translates that names the table in `t` for the higher half, and itself at its end. -/
def higherHalf (d t : ℕ) (page : ℕ → Option ℕ) (v : ℕ) : Option ℕ :=
  if pdOf v = 768 then page (ptOf v)
  else if pdOf v = 1023 then if ptOf v = 768 then some t else if ptOf v = 1023 then some d else none
  else none

/-- The directory in use names the table `t` for the higher half, itself at its end, and nothing else. -/
def InHigherHalf (s : Paging) (t : ℕ) : Prop :=
  ∀ j < 1024, s.table32 j = if j = 768 then some t else if j = 1023 then some s.cr3 else none

variable {b : Image} {s : Paging} {m : Phys} {a c d t f g i j k n v x : ℕ}

lemma storePhys_eq (hk : k < 1024) : storePhys m (4096 * f + 4 * k) x = m.write32 f k x := by
  rw [storePhys, show (4096 * f + 4 * k) / 4096 = f by omega, show (4096 * f + 4 * k) % 4096 / 4 = k by omega]

lemma storePhys_apply (hk : k < 1024) : storePhys m (4096 * f + 4 * k) x g j = if g = f ∧ j = k then u32 x else m g j := by
  rw [storePhys_eq hk]
  by_cases hg : g = f
  · subst hg
    by_cases hj : j = k
    · subst hj
      rw [Phys.write32_self, if_pos ⟨rfl, rfl⟩]
    · rw [Phys.write32_word hj, if_neg fun h => hj h.2]
  · rw [Phys.write32_frame hg, if_neg fun h => hg h.1]

lemma fillGarbage_apply (hn : i + n = 1024) : fillGarbage n (4096 * d + 4 * i) m g j =
    if (g = d ∨ g = d + 1) ∧ i ≤ j ∧ j < 1024 then 0 else m g j := by
  induction n generalizing i m with
  | zero => rw [fillGarbage, if_neg (by omega)]
  | succ n ih =>
    have hnext : 4096 * d + 4 * i + 4 = 4096 * d + 4 * (i + 1) := by ring
    have htable : 4096 * d + 4 * i + 4096 = 4096 * (d + 1) + 4 * i := by ring
    rw [fillGarbage, hnext, htable, ih (by omega), storePhys_apply (by omega), storePhys_apply (by omega), u32]
    split_ifs <;> first | rfl | omega

lemma mapImage_apply (hc : c < 2 ^ 30) (hn : i + n = 1024) : mapImage c n (4096 * i) (4096 * t + 4 * i) m g j =
    if g = t ∧ i ≤ j ∧ j < 1024 ∧ KERNEL_START ≤ 4096 * j ∧ 4096 * j < c then 4096 * j ||| 0x003 else m g j := by
  induction n generalizing i m with
  | zero => rw [mapImage, if_neg (by omega)]
  | succ n ih =>
    have hesi : 4096 * i + 4096 = 4096 * (i + 1) := by ring
    have hedi : 4096 * t + 4 * i + 4 = 4096 * t + 4 * (i + 1) := by ring
    have hlow : int32 (4096 * i) < int32 KERNEL_START ↔ 4096 * i < KERNEL_START := by
      rw [int32_eq (by omega), int32_eq (by norm_num [KERNEL_START]), Nat.cast_lt]
    have hhigh : int32 c ≤ int32 (4096 * i) ↔ c ≤ 4096 * i := by
      rw [int32_eq (by omega), int32_eq (by omega), Nat.cast_le]
    rw [mapImage, hesi, hedi]
    by_cases hstart : 4096 * i < KERNEL_START
    · rw [if_pos (hlow.mpr hstart), ih (by omega)]
      exact if_congr (by grind) rfl rfl
    · rw [if_neg fun h => hstart (hlow.mp h)]
      by_cases hend : c ≤ 4096 * i
      · rw [if_pos (hhigh.mpr hend), if_neg (by omega)]
      · have hword : u32 (4096 * i ||| 0x003) = 4096 * i ||| 0x003 :=
          u32_eq (Nat.or_lt_two_pow (by omega) (by norm_num))
        rw [if_neg fun h => hend (hhigh.mp h), ih (by omega), storePhys_apply (by omega), hword]
        by_cases hj : g = t ∧ j = i
        · obtain ⟨rfl, rfl⟩ := hj
          rw [if_neg (by omega), if_pos ⟨rfl, rfl⟩, if_pos (by omega)]
        · rw [if_neg hj]
          exact if_congr (by grind) rfl rfl

namespace Image

lemma frame_bounds (hf : f ∈ [b.bootPageDirectory, b.bootPageDirectory + 1, b.kernelPd, b.kernelPt]) :
    256 ≤ f ∧ f < 1024 ∧ b.page f = some f := by
  obtain ⟨hlo, hhi⟩ := b.inside f hf
  refine ⟨hlo, b.low f hf, if_pos ?_⟩
  rw [KERNEL_START]
  omega

/-- Entries 0 and 768 name `boot_page_table1`. -/
lemma fillTables_directory (hj : j < 1024) : b.fillTables m b.bootPageDirectory j =
    if j = 0 ∨ j = 768 then 4096 * b.bootPageTable1 + 3 else if j = 1023 then 4096 * b.bootPageDirectory + 3 else 0 := by
  have hd := (frame_bounds (b := b) (f := b.bootPageDirectory) (by simp)).2.1
  have ht : b.bootPageTable1 < 1024 := (frame_bounds (b := b) (f := b.bootPageDirectory + 1) (by simp)).2.1
  have hne : b.bootPageDirectory ≠ b.bootPageTable1 := (Nat.lt_succ_self _).ne
  have himage := mapImage_apply (m := fillGarbage 1024 (4096 * b.bootPageDirectory) m) (t := b.bootPageTable1)
    (g := b.bootPageDirectory) (j := j) (i := 0) (n := 1024) b.end_lt rfl
  have hgarbage := fillGarbage_apply (m := m) (d := b.bootPageDirectory) (g := b.bootPageDirectory) (j := j) (i := 0) (n := 1024) rfl
  rw [if_neg fun h => hne h.1] at himage
  rw [if_pos ⟨.inl rfl, Nat.zero_le j, hj⟩] at hgarbage
  rw [fillTables, storePhys_apply (by norm_num), storePhys_apply (by norm_num), storePhys_apply (by norm_num)]
  simp only [true_and]
  rw [u32_eq (by omega), u32_eq (by omega)]
  rw [show mapImage b.kernelEnd 1024 0 (4096 * b.bootPageTable1) _ b.bootPageDirectory j = 0 from himage.trans hgarbage]
  split_ifs <;> first | rfl | omega

lemma fillTables_table (hk : k < 1024) : target (b.fillTables m b.bootPageTable1 k) = b.page k := by
  have hne : b.bootPageTable1 ≠ b.bootPageDirectory := (Nat.lt_succ_self _).ne'
  have himage := mapImage_apply (m := fillGarbage 1024 (4096 * b.bootPageDirectory) m) (t := b.bootPageTable1)
    (g := b.bootPageTable1) (j := k) (i := 0) (n := 1024) b.end_lt rfl
  have hgarbage := fillGarbage_apply (m := m) (d := b.bootPageDirectory) (g := b.bootPageTable1) (j := k) (i := 0) (n := 1024) rfl
  rw [if_pos ⟨.inr rfl, Nat.zero_le k, hk⟩] at hgarbage
  have hword : b.fillTables m b.bootPageTable1 k =
      if KERNEL_START ≤ 4096 * k ∧ 4096 * k < b.kernelEnd then 4096 * k ||| 0x003 else 0 := by
    rw [fillTables, storePhys_apply (by norm_num), storePhys_apply (by norm_num), storePhys_apply (by norm_num)]
    rw [if_neg fun h => hne h.1, if_neg fun h => hne h.1, if_neg fun h => hne h.1]
    exact himage.trans (if_congr (by simp [hk]) rfl hgarbage)
  rw [hword, page]
  split_ifs
  · have hentry : target (u32 (u32 (4096 * k) ||| 3)) = some (4096 * k / 4096) :=
      target_entry (by omega) (by omega) (by norm_num) (by norm_num)
    rw [u32_eq (x := 4096 * k) (by omega), u32_eq (Nat.or_lt_two_pow (by omega) (by norm_num)),
      Nat.mul_div_cancel_left k (by norm_num)] at hentry
    exact hentry
  · rfl

lemma fillTables_frame (hd : f ≠ b.bootPageDirectory) (ht : f ≠ b.bootPageTable1) : b.fillTables m f k = m f k := by
  have himage := mapImage_apply (m := fillGarbage 1024 (4096 * b.bootPageDirectory) m) (t := b.bootPageTable1)
    (g := f) (j := k) (i := 0) (n := 1024) b.end_lt rfl
  have hgarbage := fillGarbage_apply (m := m) (d := b.bootPageDirectory) (g := f) (j := k) (i := 0) (n := 1024) rfl
  rw [if_neg fun h => ht h.1] at himage
  rw [if_neg fun h => h.1.elim hd ht] at hgarbage
  rw [fillTables, storePhys_apply (by norm_num), storePhys_apply (by norm_num), storePhys_apply (by norm_num)]
  rw [if_neg fun h => hd h.1, if_neg fun h => hd h.1, if_neg fun h => hd h.1]
  exact himage.trans hgarbage

lemma enablePaging_table (hj : j < 1024) : (b.enablePaging s).table32 j =
    if j = 0 ∨ j = 768 then some b.bootPageTable1 else if j = 1023 then some b.bootPageDirectory else none := by
  have hd := (frame_bounds (b := b) (f := b.bootPageDirectory) (by simp)).2.1
  have ht : b.bootPageTable1 < 1024 := (frame_bounds (b := b) (f := b.bootPageDirectory + 1) (by simp)).2.1
  have hword : ∀ f < 1024, target (4096 * f + 3) = some f := fun f hf => by
    rw [target_of_present (by rw [Present]; omega), frameOf]
    exact congrArg some (by omega)
  rw [table32_eq hj]
  change target (b.fillTables s.phys b.bootPageDirectory j) = _
  rw [fillTables_directory hj]
  split_ifs
  · exact hword _ ht
  · exact hword _ hd
  · rfl

end Image

lemma higher_indices (hf : f < 1024) (hk : k < 1024) : BOOTLOC + 4096 * f + 4 * k < 2 ^ 32 ∧
    pdOf (BOOTLOC + 4096 * f + 4 * k) = 768 ∧ ptOf (BOOTLOC + 4096 * f + 4 * k) = f := by
  have hlt : BOOTLOC + 4096 * f + 4 * k < 2 ^ 32 := by
    rw [BOOTLOC]
    omega
  refine ⟨hlt, ?_, ?_⟩
  · rw [pdOf, u32_eq hlt, BOOTLOC]
    omega
  · rw [ptOf, u32_eq hlt, BOOTLOC]
    omega

lemma walk32_higher (ht : s.table32 768 = some t) (hf : f < 1024) (hk : k < 1024) :
    s.walk32 (BOOTLOC + 4096 * f + 4 * k) = target (s.phys t f) := by
  obtain ⟨hlt, hpd, hpt⟩ := higher_indices hf hk
  rw [walk32_bind hlt, hpd, hpt, ht, Option.bind_some]

lemma higher_word (hk : k < 1024) : (BOOTLOC + 4096 * f + 4 * k) % 2 ^ 12 / 4 = k := by
  rw [BOOTLOC]
  omega

lemma load32_higher (ht : s.table32 768 = some t) (hf : f < 1024) (hk : k < 1024) (he : target (s.phys t f) = some f) :
    s.load32 (BOOTLOC + 4096 * f + 4 * k) = .ok (s.phys f k) := by
  rw [load32, walk32_higher ht hf hk, he, higher_word hk]

lemma store32_higher (ht : s.table32 768 = some t) (hf : f < 1024) (hk : k < 1024) (he : target (s.phys t f) = some f) :
    s.store32 (BOOTLOC + 4096 * f + 4 * k) x = .ok (s.setWord f k x) := by
  rw [store32, walk32_higher ht hf hk, he, higher_word hk]
  rfl

lemma InHigherHalf.walk32 (h : InHigherHalf s t) (hv : v < 2 ^ 32) :
    s.walk32 v = higherHalf s.cr3 t (fun k => target (s.phys t k)) v := by
  rw [walk32_bind hv, h _ (pdOf_lt v), higherHalf]
  split_ifs with hpd hself hpt hpt'
  · rfl
  · have hwindow := (table32_eq (ptOf_lt v)).symm.trans (h _ (ptOf_lt v))
    rw [if_pos hpt] at hwindow
    exact hwindow
  · have hwindow := (table32_eq (ptOf_lt v)).symm.trans (h _ (ptOf_lt v))
    rw [if_neg hpt, if_pos hpt'] at hwindow
    exact hwindow
  · have hwindow := (table32_eq (ptOf_lt v)).symm.trans (h _ (ptOf_lt v))
    rw [if_neg hpt, if_neg hpt'] at hwindow
    exact hwindow
  · rfl

namespace Image

lemma start_eq : b.start s = .ok ((b.enablePaging s).setWord b.bootPageDirectory 0 0) := by
  obtain ⟨-, hlt, hpage⟩ := frame_bounds (b := b) (f := b.bootPageDirectory) (by simp)
  have ht := enablePaging_table (b := b) (s := s) (show 768 < 1024 by norm_num)
  exact store32_higher ht hlt (by norm_num) ((fillTables_table hlt).trans hpage)

lemma start_higherHalf : InHigherHalf ((b.enablePaging s).setWord b.bootPageDirectory 0 0) b.bootPageTable1 := by
  intro j hj
  rw [table32_eq hj]
  change target (((b.enablePaging s).setWord b.bootPageDirectory 0 0).phys b.bootPageDirectory j) = _
  by_cases h0 : j = 0
  · subst h0
    rw [phys_setWord_self]
    rfl
  · rw [phys_setWord fun _ => h0]
    refine ((table32_eq hj).symm.trans (enablePaging_table hj)).trans ?_
    rw [if_congr (or_iff_right h0) rfl rfl]
    rfl

/-- With paging on, the code of `_start` runs on where it lies and in the higher half, and each address of either is that of
a page of the image; then only the higher half is left, with the tables at the end. -/
theorem start_walk (b : Image) (s : Paging) :
    (∀ v < 2 ^ 22, (b.enablePaging s).walk32 v = b.page (v / 4096)) ∧
    ∃ t, b.start s = .ok t ∧ t.cr3 = b.bootPageDirectory ∧ t.pmm = s.pmm ∧
      (∀ v < 2 ^ 32, t.walk32 v = higherHalf b.bootPageDirectory b.bootPageTable1 b.page v) ∧
      ∀ v, 2 ^ 22 ≤ v → v < RECURSIVE_ADDR → t.walk32 v = (b.enablePaging s).walk32 v := by
  have htable : ∀ k < 1024, target ((b.enablePaging s).phys b.bootPageTable1 k) = b.page k := fun _ hk => fillTables_table hk
  have hne : b.bootPageTable1 ≠ b.bootPageDirectory := (Nat.lt_succ_self _).ne'
  refine ⟨fun v hv => ?_, _, start_eq, rfl, rfl, fun v hv => ?_, fun v hlo hhi => ?_⟩
  · have hpd : pdOf v = 0 := by rw [pdOf, u32_eq (by omega)]; omega
    have hpt : ptOf v = v / 4096 := by rw [ptOf, u32_eq (by omega)]; omega
    rw [walk32_bind (by omega), hpd, hpt, enablePaging_table (by norm_num), if_pos (.inl rfl), Option.bind_some]
    exact htable _ (by omega)
  · rw [start_higherHalf.walk32 hv, higherHalf, higherHalf]
    refine if_congr Iff.rfl ?_ rfl
    rw [phys_setWord fun h => absurd h hne]
    exact htable _ (ptOf_lt v)
  · have hlt : v < 2 ^ 32 := hhi.trans (by norm_num [RECURSIVE_ADDR])
    have hpd : pdOf v ≠ 0 ∧ pdOf v ≠ 1023 := by
      rw [pdOf, u32_eq hlt]
      rw [RECURSIVE_ADDR] at hhi
      omega
    rw [walk32_bind hlt, walk32_bind hlt, start_higherHalf _ (pdOf_lt v), enablePaging_table (pdOf_lt v),
      if_congr (or_iff_right hpd.1) rfl rfl, if_neg hpd.2, if_neg hpd.2]
    split_ifs with h
    · rw [Option.bind_some, Option.bind_some, phys_setWord fun h => absurd h hne]
    · rfl

end Image

end WordOS.Boot
