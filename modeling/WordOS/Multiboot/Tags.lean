import WordOS.Lib.Chains
import WordOS.Memory.Reads

/-! The tags of the boot information: the loop of `init_multiboot`. -/

namespace WordOS.Multiboot

open Machine Memory Lib.Bytes Lib.Loops Lib.Chains

def MULTIBOOT_TAG_TYPE_END : ℕ := 0
def MULTIBOOT_TAG_TYPE_MMAP : ℕ := 6
def MULTIBOOT_TAG_TYPE_FRAMEBUFFER : ℕ := 8
def MULTIBOOT_TAG_TYPE_ACPI_OLD : ℕ := 14

/-- `struct multiboot_tag_pointers`; `none` is NULL. -/
structure TagPointers where
  mmap : Option ℕ
  framebuffer : Option ℕ
  oldAcpi : Option ℕ

/-- `tag` and `all_tags` -/
structure TagLoop where
  tag : ℕ
  allTags : TagPointers

section

variable (m : Mem) (addr : ℕ)

/-- The 32-bit address `x` lies in the block, which `size = *addr` bytes belong to. -/
def InBlock (x : ℕ) : Prop := u32 (x + (2 ^ 32 - u32 addr)) < wordAt m addr

instance : DecidablePred (InBlock m addr) := fun x => inferInstanceAs (Decidable (u32 (x + (2 ^ 32 - u32 addr)) < wordAt m addr))

def tagType (tag : ℕ) : ℕ := wordAt m tag

def tagSize (tag : ℕ) : ℕ := wordAt m (tag + 4)

/-- The `switch` on the type. -/
def recordTag (type tag : ℕ) (allTags : TagPointers) : TagPointers :=
  if type = MULTIBOOT_TAG_TYPE_MMAP then { allTags with mmap := some tag }
  else if type = MULTIBOOT_TAG_TYPE_FRAMEBUFFER then { allTags with framebuffer := some tag }
  else if type = MULTIBOOT_TAG_TYPE_ACPI_OLD then { allTags with oldAcpi := some tag }
  else allTags

/-- `(size + 7) & ~7` -/
def tagStride (size : ℕ) : ℕ := u32 (size + 7) - u32 (size + 7) % 8

def tagBody (s : TagLoop) : Exec (Option TagLoop) := do
  let type ← loadWord (InBlock m addr) m s.tag
  if type = MULTIBOOT_TAG_TYPE_END then return none
  let size ← loadWord (InBlock m addr) m (s.tag + 4)
  return some ⟨u32 (s.tag + tagStride size), recordTag type s.tag s.allTags⟩

def firstTag : TagLoop := ⟨u32 (addr + 8), ⟨none, none, none⟩⟩

/-- The loop; `n` bounds its tests. -/
def readTags (n : ℕ) : Exec TagLoop := loop .fuel (tagBody m addr) n (firstTag addr)

/-- The loop ends, and the tags it reads are inside of the block. -/
def TagsConfined : Prop := ∃ n s, readTags m addr n = .ok s

def nextTag (tag : ℕ) : Option ℕ := if tagType m tag = MULTIBOOT_TAG_TYPE_END then none else some (u32 (tag + tagStride (tagSize m tag)))

/-- What is read of a tag is inside of the block. -/
def TagInside (tag : ℕ) : Prop :=
  Within (InBlock m addr) tag 4 ∧ (tagType m tag ≠ MULTIBOOT_TAG_TYPE_END → Within (InBlock m addr) (tag + 4) 4)

end

variable {m : Mem} {addr a c e k n tag : ℕ} {s : TagLoop}

lemma tagBody_end (h : Within (InBlock m addr) s.tag 4) (hend : tagType m s.tag = MULTIBOOT_TAG_TYPE_END) :
    tagBody m addr s = .ok none := by
  rw [tagBody, loadWord_ok h, ok_bind, ← tagType, if_pos hend]
  rfl

lemma tagBody_tag (h : Within (InBlock m addr) s.tag 4) (hend : tagType m s.tag ≠ MULTIBOOT_TAG_TYPE_END)
    (hsize : Within (InBlock m addr) (s.tag + 4) 4) : tagBody m addr s =
      .ok (some ⟨u32 (s.tag + tagStride (tagSize m s.tag)), recordTag (tagType m s.tag) s.tag s.allTags⟩) := by
  rw [tagBody, loadWord_ok h, ok_bind, ← tagType, if_neg hend, loadWord_ok hsize]
  rfl

lemma tagBody_inside {r : Option TagLoop} (hr : tagBody m addr s = .ok r) : TagInside m addr s.tag := by
  obtain ⟨type, htype, hr⟩ := bind_eq_ok.mp hr
  obtain ⟨hin, rfl⟩ := loadWord_eq_ok.mp htype
  refine ⟨hin, fun hend => ?_⟩
  rw [← tagType, if_neg hend] at hr
  obtain ⟨size, hsize, -⟩ := bind_eq_ok.mp hr
  exact (loadWord_eq_ok.mp hsize).1

lemma tagBody_walks : Walks (tagBody m addr) TagLoop.tag (nextTag m) (TagInside m addr) where
  good_iff s := by
    constructor
    · rintro ⟨hin, hsize⟩
      by_cases hend : tagType m s.tag = MULTIBOOT_TAG_TYPE_END
      · exact ⟨_, tagBody_end hin hend⟩
      · exact ⟨_, tagBody_tag hin hend (hsize hend)⟩
    · rintro ⟨r, hr⟩
      exact tagBody_inside hr
  moves {s r} hr := by
    obtain ⟨hin, hsize⟩ := tagBody_inside hr
    by_cases hend : tagType m s.tag = MULTIBOOT_TAG_TYPE_END
    · rw [tagBody_end hin hend] at hr
      rw [nextTag, if_pos hend, ← Except.ok.inj hr, Option.map_none]
    · rw [tagBody_tag hin hend (hsize hend)] at hr
      rw [nextTag, if_neg hend, ← Except.ok.inj hr, Option.map_some]

/-- The addresses of tags keep their distance to `addr` modulo 8. -/
lemma follow_aligned (h : follow (nextTag m) k (u32 (addr + 8)) = some tag) : tag < 2 ^ 32 ∧ tag % 8 = addr % 8 := by
  refine follow_invariant (I := fun tag => tag < 2 ^ 32 ∧ tag % 8 = addr % 8) ?_ h ?_
  · intro a b ha hb
    rw [nextTag] at hb
    split_ifs at hb
    rw [← Option.some.inj hb, tagStride, u32]
    simp only [u32] at *
    omega
  · simp only [u32]
    omega

lemma tagsConfined_walk : TagsConfined m addr ↔ ∃ k tag, EndsAt (nextTag m) k (u32 (addr + 8)) tag ∧
    ∀ j ≤ k, ∀ tag, follow (nextTag m) j (u32 (addr + 8)) = some tag → TagInside m addr tag :=
  tagBody_walks.returns_iff (s := firstTag addr)

/-- The loop is confined where its chain has an end tag inside of the block, and no tag up to it is outside; this
is known after one tag for each eight bytes of the block. -/
theorem tagsConfined_iff (m : Mem) (addr : ℕ) : TagsConfined m addr ↔ ∃ k < (wordAt m addr + 7) / 8, ∃ tag,
    EndsAt (nextTag m) k (u32 (addr + 8)) tag ∧
      ∀ j ≤ k, ∀ tag, follow (nextTag m) j (u32 (addr + 8)) = some tag → TagInside m addr tag := by
  rw [tagsConfined_walk]
  constructor
  · rintro ⟨k, tag, hend, hall⟩
    refine ⟨k, ?_, tag, hend, hall⟩
    -- the places in the block that a tag can have
    let places := (Finset.range ((wordAt m addr + 7) / 8)).image fun i => u32 (u32 addr + 8 * i)
    have hplaces : ∀ j ≤ k, ∀ c, follow (nextTag m) j (u32 (addr + 8)) = some c → c ∈ places := by
      intro j hj c hc
      have hin := (hall j hj c hc).1 0 (by decide)
      obtain ⟨hlt, hmod⟩ := follow_aligned hc
      rw [InBlock, Nat.add_zero, u32_eq hlt] at hin
      refine Finset.mem_image.mpr ⟨u32 (c + (2 ^ 32 - u32 addr)) / 8, ?_, ?_⟩
      · rw [Finset.mem_range]
        omega
      · simp only [u32] at *
        omega
    have hcard := hend.lt_card hplaces
    have hle : places.card ≤ (wordAt m addr + 7) / 8 := Finset.card_image_le.trans (Finset.card_range _).le
    omega
  · rintro ⟨k, -, tag, hend, hall⟩
    exact ⟨k, tag, hend, hall⟩

/-- A block of sixteen bytes with a tag of size 0. -/
def stuckTags : Mem := fun a => if a = 0xC0010000 then 16 else if a = 0xC0010008 then 1 else 0

theorem not_tagsConfined : ¬ TagsConfined stuckTags 0xC0010000 := by
  rw [tagsConfined_walk]
  rintro ⟨k, tag, ⟨hk, hend⟩, -⟩
  have hstay : tag = 0xC0010008 := by
    refine follow_invariant (I := fun tag => tag = 0xC0010008) ?_ hk (by decide)
    rintro a b rfl hb
    exact (Option.some.inj hb).symm
  rw [hstay] at hend
  cases hend

end WordOS.Multiboot
