import WordOS.Multiboot.Tags

/-! The loop of `init_multiboot` on a block that is a list of tags. -/

namespace WordOS.Multiboot

open Machine Memory Lib.Bytes Lib.Loops

/-- The address behind a tag and its padding. -/
def afterTag (m : Mem) (tag : ℕ) : ℕ := tag + (tagSize m tag + 7) / 8 * 8

/-- `l` holds the addresses of the tags from `a` on, before the end tag at `e`. -/
inductive TagList (m : Mem) : (a : ℕ) → (l : List ℕ) → (e : ℕ) → Prop
  | last {a} : tagType m a = MULTIBOOT_TAG_TYPE_END → TagList m a [] a
  | cons {a l e} : tagType m a ≠ MULTIBOOT_TAG_TYPE_END → 8 ≤ tagSize m a → TagList m (afterTag m a) l e → TagList m a (a :: l) e

structure WellFormed (m : Mem) (addr : ℕ) (l : List ℕ) (e : ℕ) : Prop where
  tags : TagList m (addr + 8) l e
  inside : e + 8 ≤ addr + wordAt m addr
  room : addr + wordAt m addr ≤ 2 ^ 32

def lastOf (m : Mem) (type : ℕ) (l : List ℕ) : Option ℕ := (l.filter fun tag => tagType m tag = type).getLast?

/-- `all_tags` after these tags. -/
def recorded (m : Mem) (allTags : TagPointers) (l : List ℕ) : TagPointers :=
  l.foldl (fun allTags tag => recordTag (tagType m tag) tag allTags) allTags

variable {m : Mem} {addr a e n tag type : ℕ} {l : List ℕ} {allTags : TagPointers}

namespace TagList

lemma le (h : TagList m a l e) : a ≤ e := by
  induction h with
  | last => exact le_refl _
  | cons _ _ _ ih => exact Nat.le_trans (Nat.le_add_right _ _) ih

lemma bounds (h : TagList m a l e) : ∀ tag ∈ l, a ≤ tag ∧ tag + 8 ≤ e := by
  induction h with
  | last => exact fun tag htag => absurd htag List.not_mem_nil
  | @cons a l e _ hsize hrest ih =>
    have hle := hrest.le
    have hnext : a + 8 ≤ afterTag m a := by
      rw [afterTag]
      omega
    intro tag htag
    rcases List.mem_cons.mp htag with rfl | htag
    · exact ⟨le_refl _, by omega⟩
    · obtain ⟨hlo, hhi⟩ := ih tag htag
      exact ⟨by omega, hhi⟩

lemma nodup (h : TagList m a l e) : (l ++ [e]).Nodup := by
  induction h with
  | last => exact List.nodup_singleton _
  | @cons a l e _ hsize hrest ih =>
    rw [List.cons_append, List.nodup_cons]
    refine ⟨fun hmem => ?_, ih⟩
    have hnext : a + 8 ≤ afterTag m a := by
      rw [afterTag]
      omega
    rcases List.mem_append.mp hmem with hmem | hmem
    · have hlo := (hrest.bounds a hmem).1
      omega
    · have hle := hrest.le
      rw [List.mem_singleton] at hmem
      omega

end TagList

lemma within_block (hlo : addr ≤ a) (hhi : a + n ≤ addr + wordAt m addr) : Within (InBlock m addr) a n := by
  intro i hi
  rw [InBlock]
  simp only [u32]
  omega

lemma readTags_from (h : TagList m a l e) (hlo : addr ≤ a) (hin : e + 8 ≤ addr + wordAt m addr)
    (hroom : addr + wordAt m addr ≤ 2 ^ 32) (hn : l.length < n) (allTags : TagPointers) :
    loop .fuel (tagBody m addr) n ⟨a, allTags⟩ = .ok ⟨e, recorded m allTags l⟩ ∧
      (tests (tagBody m addr) n ⟨a, allTags⟩).map TagLoop.tag = l ++ [e] := by
  induction h generalizing n allTags with
  | @last a hend =>
    obtain ⟨n, rfl⟩ := Nat.exists_eq_succ_of_ne_zero (Nat.ne_of_gt hn)
    have htype : Within (InBlock m addr) a 4 := within_block hlo (by omega)
    have hleave : tagBody m addr ⟨a, allTags⟩ = .ok none := tagBody_end htype hend
    exact ⟨loop_leave hleave, by rw [tests_leave hleave]; rfl⟩
  | @cons a l e hend hsize hrest ih =>
    obtain ⟨n, rfl⟩ := Nat.exists_eq_succ_of_ne_zero (Nat.ne_of_gt (Nat.lt_of_le_of_lt (Nat.zero_le _) hn))
    have hle := hrest.le
    rw [afterTag] at hle
    have hnext : u32 (a + tagStride (tagSize m a)) = afterTag m a := by
      have hword : u32 (tagSize m a + 7) = tagSize m a + 7 := u32_eq (by omega)
      rw [tagStride, hword, afterTag, u32_eq (by omega)]
      omega
    have htype : Within (InBlock m addr) a 4 := within_block hlo (by omega)
    have hsized : Within (InBlock m addr) (a + 4) 4 := within_block (by omega) (by omega)
    have hpass := tagBody_tag (s := ⟨a, allTags⟩) htype hend hsized
    rw [hnext] at hpass
    obtain ⟨hloop, htests⟩ := ih (by rw [afterTag]; omega) hin (Nat.lt_of_succ_lt_succ hn) (recordTag (tagType m a) a allTags)
    refine ⟨(loop_pass hpass).trans hloop, ?_⟩
    rw [tests_pass hpass, List.map_cons, htests]
    rfl

lemma recorded_snoc : recorded m allTags (l ++ [tag]) = recordTag (tagType m tag) tag (recorded m allTags l) := by
  rw [recorded, List.foldl_append]
  rfl

lemma lastOf_snoc : lastOf m type (l ++ [tag]) = if tagType m tag = type then some tag else lastOf m type l := by
  rw [lastOf, List.filter_append]
  by_cases h : tagType m tag = type
  · simp [h]
  · simp [h, lastOf]

lemma recorded_eq (l : List ℕ) : recorded m ⟨none, none, none⟩ l =
    ⟨lastOf m MULTIBOOT_TAG_TYPE_MMAP l, lastOf m MULTIBOOT_TAG_TYPE_FRAMEBUFFER l, lastOf m MULTIBOOT_TAG_TYPE_ACPI_OLD l⟩ := by
  induction l using List.reverseRecOn with
  | nil => rfl
  | append_singleton l tag ih =>
    rw [recorded_snoc, ih, lastOf_snoc, lastOf_snoc, lastOf_snoc, recordTag]
    by_cases hmmap : tagType m tag = MULTIBOOT_TAG_TYPE_MMAP
    · simp [hmmap, MULTIBOOT_TAG_TYPE_MMAP, MULTIBOOT_TAG_TYPE_FRAMEBUFFER, MULTIBOOT_TAG_TYPE_ACPI_OLD]
    · by_cases hfb : tagType m tag = MULTIBOOT_TAG_TYPE_FRAMEBUFFER
      · simp [hfb, MULTIBOOT_TAG_TYPE_MMAP, MULTIBOOT_TAG_TYPE_FRAMEBUFFER, MULTIBOOT_TAG_TYPE_ACPI_OLD]
      · rw [if_neg hmmap, if_neg hfb, if_neg hmmap, if_neg hfb]
        split_ifs <;> rfl

/-- The loop goes over the tags of a well-formed block once each, and finds the last of each known type. -/
theorem readTags_wellFormed (h : WellFormed m addr l e) (hn : l.length < n) :
    readTags m addr n =
        .ok ⟨e, lastOf m MULTIBOOT_TAG_TYPE_MMAP l, lastOf m MULTIBOOT_TAG_TYPE_FRAMEBUFFER l, lastOf m MULTIBOOT_TAG_TYPE_ACPI_OLD l⟩ ∧
      (tests (tagBody m addr) n (firstTag addr)).map TagLoop.tag = l ++ [e] ∧ (l ++ [e]).Nodup := by
  have hle := h.tags.le
  have hin := h.inside
  have hroom := h.room
  have hfirst : firstTag addr = ⟨addr + 8, ⟨none, none, none⟩⟩ := by rw [firstTag, u32_eq (by omega)]
  obtain ⟨hloop, htests⟩ := readTags_from h.tags (Nat.le_add_right _ _) hin hroom hn ⟨none, none, none⟩
  rw [readTags, hfirst]
  exact ⟨by rw [hloop, recorded_eq], htests, h.tags.nodup⟩

/-- A memory map with one byte behind its head, and a tag of another type. -/
def twoTags : Mem := fun a =>
  [40, 0, 0, 0, 0, 0, 0, 0, 6, 0, 0, 0, 9, 0, 0, 0, 7, 0, 0, 0, 0, 0, 0, 0, 1, 0, 0, 0, 8, 0, 0, 0, 0, 0, 0, 0, 8].getD
    (a - 0xC0010000) 0

lemma wellFormed_twoTags : WellFormed twoTags 0xC0010000 [0xC0010008, 0xC0010018] 0xC0010020 where
  tags := by
    have hmmap : afterTag twoTags 0xC0010008 = 0xC0010018 := by decide
    have hother : afterTag twoTags 0xC0010018 = 0xC0010020 := by decide
    refine .cons (by decide) (by decide) ?_
    rw [hmmap]
    refine .cons (by decide) (by decide) ?_
    rw [hother]
    exact .last (by decide)
  inside := by decide
  room := by decide

theorem readTags_twoTags : (readTags twoTags 0xC0010000 3).toOption.map (fun s => s.allTags.mmap) = some (some 0xC0010008) := by
  rw [(readTags_wellFormed wellFormed_twoTags (by decide)).1]
  decide

end WordOS.Multiboot
