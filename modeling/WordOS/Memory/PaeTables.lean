import WordOS.Lib.PageTables
import WordOS.Memory.Paging

/-! The page tables of PAE mode as two levels of tables, and the windows through which they are reached. -/

namespace WordOS.Memory

open Machine Lib

def target (e : ℕ) : Option ℕ := if Present e then some (frameOf e) else none

namespace Phys

variable {m : Phys} {f f' i i' v : ℕ}

lemma write32_self : (m.write32 f i v) f i = u32 v := by simp [write32]

lemma write32_frame (h : f' ≠ f) : (m.write32 f i v) f' = m f' := Function.update_of_ne h ..

lemma write32_word (h : i' ≠ i) : (m.write32 f i v) f i' = m f i' := by simp [write32, h]

lemma write64_frame (h : f' ≠ f) : (m.write64 f i v) f' = m f' := by
  rw [write64, write32_frame h, write32_frame h]

lemma read64_write64_self (hv : v < 2 ^ 64) : (m.write64 f i v).read64 f i = v := by
  rw [read64, write64, write32_self, write32_word (by omega), write32_self, u32, u32]
  omega

lemma read64_write64_ne (h : f' = f → i' ≠ i) : (m.write64 f i v).read64 f' i' = m.read64 f' i' := by
  by_cases hf : f' = f
  · subst hf
    have := h rfl
    rw [read64, write64, write32_word (by omega), write32_word (by omega), write32_word (by omega), write32_word (by omega),
      read64]
  · rw [read64, read64, write64_frame hf]

end Phys

namespace Paging

variable {s t : Paging} {v x f d i j k : ℕ}

/-- The 512 entries of a frame that holds a table. -/
def entries64 (s : Paging) (f i : ℕ) : ℕ := if i < 512 then s.phys.read64 f i else 0

def directory (s : Paging) (i : ℕ) : Option ℕ := if i < 4 then target (s.pdpt i) else none

def table (s : Paging) (i j : ℕ) : Option ℕ := PageTables.table target s.entries64 s.directory i j

/-- The entry that translates the page of `v`. -/
def translation (s : Paging) (v : ℕ) : Option ℕ :=
  PageTables.entry target s.entries64 s.directory (v / 2 ^ 30) (v / 2 ^ 21 % 2 ^ 9) (v / 2 ^ 12 % 2 ^ 9)

/-- The last entry of each directory names it, and no frame holds two directories or tables. -/
abbrev Recursive (s : Paging) : Prop := PageTables.Recursive target s.entries64 s.directory 511

abbrev Unused (s : Paging) (f : ℕ) : Prop := PageTables.Unused target s.entries64 s.directory f

lemma target_of_present {e : ℕ} (h : Present e) : target e = some (frameOf e) := if_pos h

lemma target_of_not_present {e : ℕ} (h : ¬ Present e) : target e = none := if_neg h

lemma exists_of_target {e : ℕ} (h : target e = some f) : Present e ∧ frameOf e = f := by
  by_cases he : Present e
  · exact ⟨he, Option.some.inj ((target_of_present he).symm.trans h)⟩
  · rw [target_of_not_present he] at h
    cases h

lemma table_eq (hi : i < 4) (hj : j < 512) :
    s.table i j = (target (s.pdpt i)).bind fun d => target (s.phys.read64 d j) := by
  simp [table, PageTables.table, directory, if_pos hi, entries64, if_pos hj]

lemma exists_directory (h : s.table i j = some f) :
    i < 4 ∧ j < 512 ∧ ∃ d, s.directory i = some d ∧ Present (s.pdpt i) ∧ frameOf (s.pdpt i) = d ∧
      Present (s.phys.read64 d j) ∧ frameOf (s.phys.read64 d j) = f := by
  obtain ⟨d, hd, ht⟩ := PageTables.exists_dir_of_table h
  by_cases hi : i < 4
  · have hd' := hd
    rw [directory, if_pos hi] at hd'
    by_cases hj : j < 512
    · rw [entries64, if_pos hj] at ht
      exact ⟨hi, hj, d, hd, (exists_of_target hd').1, (exists_of_target hd').2, exists_of_target ht⟩
    · rw [entries64, if_neg hj] at ht
      cases ht
  · rw [directory, if_neg hi] at hd
    cases hd

lemma translation_eq : s.translation v = (s.table (v / 2 ^ 30) (v / 2 ^ 21 % 2 ^ 9)).bind fun f =>
    if Present (s.phys.read64 f (v / 2 ^ 12 % 2 ^ 9)) then some (s.phys.read64 f (v / 2 ^ 12 % 2 ^ 9)) else none := by
  have hk : v / 2 ^ 12 % 2 ^ 9 < 512 := Nat.mod_lt _ (by norm_num)
  rw [translation, PageTables.entry]
  refine congrArg _ (funext fun f => ?_)
  rw [entries64, if_pos hk]
  by_cases hp : Present (s.phys.read64 f (v / 2 ^ 12 % 2 ^ 9))
  · rw [target_of_present hp, if_pos hp]
    rfl
  · rw [target_of_not_present hp, if_neg hp]
    rfl

lemma walk64_eq (hv : v < 2 ^ 32) : s.walk64 v = (s.translation v).map frameOf := by
  have hi : v / 2 ^ 30 < 4 := by omega
  have hj : v / 2 ^ 21 % 2 ^ 9 < 512 := Nat.mod_lt _ (by norm_num)
  rw [walk64, translation_eq, table_eq hi hj]
  by_cases h₁ : Present (s.pdpt (v / 2 ^ 30))
  · rw [target_of_present h₁]
    by_cases h₂ : Present (s.phys.read64 (frameOf (s.pdpt (v / 2 ^ 30))) (v / 2 ^ 21 % 2 ^ 9))
    · simp only [if_pos h₁, if_pos h₂, Option.bind_some, target_of_present h₂]
      split_ifs <;> rfl
    · simp only [if_pos h₁, if_neg h₂, Option.bind_some, target_of_not_present h₂]
      rfl
  · simp only [if_neg h₁, target_of_not_present h₁]
    rfl

lemma ptWindow_eq (hi : i < 4) (hj : j < 512) : ptWindow i j = 2 ^ 30 * i + 2 ^ 21 * 511 + 2 ^ 12 * j := by
  have hr : recursiveAddrOf i = 2 ^ 21 * (512 * i + 511) := by
    rw [recursiveAddrOf, u32_eq (by omega)]
    omega
  rw [ptWindow, hr, ← Nat.two_pow_add_eq_or_of_lt (by omega)]
  omega

lemma pdWindow_eq (hi : i < 4) : pdWindow i = ptWindow i 511 := by
  rw [ptWindow_eq hi (by norm_num), pdWindow, recursiveAddrOf, u32_eq (by omega)]
  interval_cases i <;> decide

lemma walk64_window (hs : s.Recursive) (ht : s.table i j = some f) (hk : k < 512) :
    s.walk64 (ptWindow i j + 8 * k) = some f := by
  obtain ⟨hi, hj, d, hd, -, -, hp, hf⟩ := exists_directory ht
  rw [ptWindow_eq hi hj, walk64_eq (by omega), translation_eq]
  have h₁ : (2 ^ 30 * i + 2 ^ 21 * 511 + 2 ^ 12 * j + 8 * k) / 2 ^ 30 = i := by omega
  have h₂ : (2 ^ 30 * i + 2 ^ 21 * 511 + 2 ^ 12 * j + 8 * k) / 2 ^ 21 % 2 ^ 9 = 511 := by omega
  have h₃ : (2 ^ 30 * i + 2 ^ 21 * 511 + 2 ^ 12 * j + 8 * k) / 2 ^ 12 % 2 ^ 9 = j := by omega
  rw [h₁, h₂, h₃, table, hs.table_self hd, Option.bind_some, if_pos hp, Option.map_some, hf]

def setEntry (s : Paging) (f k x : ℕ) : Paging := { s with phys := s.phys.write64 f k x }

lemma window_entry (hi : i < 4) (hj : j < 512) (hk : k < 512) : (ptWindow i j + 8 * k) % 2 ^ 12 / 8 = k := by
  rw [ptWindow_eq hi hj]
  omega

lemma load64_window (hs : s.Recursive) (ht : s.table i j = some f) (hk : k < 512) :
    s.load64 (ptWindow i j + 8 * k) = .ok (s.phys.read64 f k) := by
  obtain ⟨hi, hj, -⟩ := exists_directory ht
  rw [load64, walk64_window hs ht hk, window_entry hi hj hk]

lemma store64_window (hs : s.Recursive) (ht : s.table i j = some f) (hk : k < 512) :
    s.store64 (ptWindow i j + 8 * k) x = .ok (s.setEntry f k x) := by
  obtain ⟨hi, hj, -⟩ := exists_directory ht
  rw [store64, walk64_window hs ht hk, window_entry hi hj hk]
  rfl

lemma entries64_setEntry_self (hx : x < 2 ^ 64) (hk : k < 512) : (s.setEntry f k x).entries64 f k = x := by
  rw [entries64, if_pos hk, setEntry, Phys.read64_write64_self hx]

lemma entries64_setEntry {f' k' : ℕ} (h : f' = f → k' ≠ k) : (s.setEntry f k x).entries64 f' k' = s.entries64 f' k' := by
  rw [entries64, entries64, setEntry, Phys.read64_write64_ne h]

end Paging

end WordOS.Memory
