import WordOS.Memory.PaeTables
import WordOS.Memory.PmmBitmap

/-! The tables behind the one page directory in use without PAE, and what `memory_map` and `memory_unmap` change. -/

namespace WordOS.Memory

open Machine Lib

def pdOf (virt : ℕ) : ℕ := u32 virt / 2 ^ 22

def ptOf (virt : ℕ) : ℕ := u32 virt / 2 ^ 12 % 2 ^ 10

namespace Paging

variable {s : Paging} {f g f' j j' k k' x n virt phys flags : ℕ} {pmm : Pmm}

def entries32 (s : Paging) (f i : ℕ) : ℕ := if i < 1024 then s.phys f i else 0

def directory32 (s : Paging) : Unit → Option ℕ := fun _ => some s.cr3

def table32 (s : Paging) (j : ℕ) : Option ℕ := PageTables.table target s.entries32 s.directory32 () j

def entryAt32 (s : Paging) (j k : ℕ) : Option ℕ := PageTables.entry target s.entries32 s.directory32 () j k

abbrev Recursive32 (s : Paging) : Prop := PageTables.Recursive target s.entries32 s.directory32 1023

abbrev Unused32 (s : Paging) (f : ℕ) : Prop := PageTables.Unused target s.entries32 s.directory32 f

lemma directory32_eq (i : Unit) : s.directory32 i = some s.cr3 := rfl

lemma table32_eq (hj : j < 1024) : s.table32 j = target (s.phys s.cr3 j) := by
  rw [table32, PageTables.table_of_dir (directory32_eq ()), entries32, if_pos hj]

lemma table32_lt (h : s.table32 j = some f) : j < 1024 := by
  by_contra hj
  rw [table32, PageTables.table_of_dir (directory32_eq ()), entries32, if_neg hj] at h
  cases h

lemma entryAt32_of_table (ht : s.table32 j = some f) (hk : k < 1024) :
    s.entryAt32 j k = if Present (s.phys f k) then some (s.phys f k) else none := by
  rw [entryAt32, PageTables.entry_of_table ht, entries32, if_pos hk, target]
  split_ifs <;> first | rfl | contradiction

lemma pdOf_lt (virt : ℕ) : pdOf virt < 1024 := by
  rw [pdOf, u32]
  omega

lemma ptOf_lt (virt : ℕ) : ptOf virt < 1024 := Nat.mod_lt _ (by norm_num)

lemma walk32_eq (hv : virt < 2 ^ 32) : s.walk32 virt = (s.entryAt32 (pdOf virt) (ptOf virt)).map frameOf := by
  have hd := pdOf_lt virt
  have ht := ptOf_lt virt
  have hu := u32_eq hv
  rw [walk32, show virt / 2 ^ 22 = pdOf virt by rw [pdOf, hu], show virt / 2 ^ 12 % 2 ^ 10 = ptOf virt by rw [ptOf, hu]]
  by_cases h₁ : Present (s.phys s.cr3 (pdOf virt))
  · have htab : s.table32 (pdOf virt) = some _ := (table32_eq hd).trans (target_of_present h₁)
    rw [entryAt32_of_table htab ht]
    simp only [if_pos h₁]
    split_ifs <;> rfl
  · have htab : s.table32 (pdOf virt) = none := (table32_eq hd).trans (target_of_not_present h₁)
    rw [entryAt32, PageTables.entry_of_table_none htab]
    simp only [if_neg h₁]
    rfl

lemma walk32_bind (hv : virt < 2 ^ 32) :
    s.walk32 virt = (s.table32 (pdOf virt)).bind fun f => target (s.phys f (ptOf virt)) := by
  rw [walk32_eq hv]
  cases ht : s.table32 (pdOf virt) with
  | none =>
    rw [entryAt32, PageTables.entry_of_table_none ht]
    rfl
  | some f =>
    rw [entryAt32_of_table ht (ptOf_lt virt), Option.bind_some, target]
    split_ifs <;> rfl

lemma target_entry (ha : phys % 4096 = 0) (hp : phys < 2 ^ 32) (hflags : flags < 4096) (hpresent : flags % 2 = 1) :
    target (u32 (u32 phys ||| flags)) = some (phys / 4096) := by
  obtain ⟨q, rfl⟩ : ∃ q, phys = 2 ^ 12 * q := ⟨phys / 4096, by omega⟩
  have hor : 2 ^ 12 * q ||| flags = 2 ^ 12 * q + flags := (Nat.two_pow_add_eq_or_of_lt (by simpa using hflags) q).symm
  rw [u32_eq hp, hor, u32_eq (by omega), target_of_present (by rw [Present]; omega), frameOf]
  exact congrArg some (by omega)

lemma window32 (hj : j < 1024) : RECURSIVE_ADDR ||| j * 2 ^ 12 = RECURSIVE_ADDR + j * 4096 := by
  have h := Nat.two_pow_add_eq_or_of_lt (i := 22) (b := j * 2 ^ 12) (by omega) 1023
  exact h.symm

lemma walk32_self (hself : s.table32 1023 = some s.cr3) (ht : s.table32 j = some f) (hk : k < 1024) :
    s.walk32 (RECURSIVE_ADDR + j * 4096 + 4 * k) = some f := by
  have hj := table32_lt ht
  have hlt : RECURSIVE_ADDR + j * 4096 + 4 * k < 2 ^ 32 := by
    rw [RECURSIVE_ADDR]
    omega
  have hpd : pdOf (RECURSIVE_ADDR + j * 4096 + 4 * k) = 1023 := by
    rw [pdOf, u32_eq hlt, RECURSIVE_ADDR]
    omega
  have hpt : ptOf (RECURSIVE_ADDR + j * 4096 + 4 * k) = j := by
    rw [ptOf, u32_eq hlt, RECURSIVE_ADDR]
    omega
  rw [table32_eq hj] at ht
  obtain ⟨hp, hf⟩ := exists_of_target ht
  rw [walk32_eq hlt, hpd, hpt, entryAt32_of_table hself hj, if_pos hp, Option.map_some, hf]

lemma window32_word (hk : k < 1024) : (RECURSIVE_ADDR + j * 4096 + 4 * k) % 2 ^ 12 / 4 = k := by
  rw [RECURSIVE_ADDR]
  omega

def setWord (s : Paging) (f k x : ℕ) : Paging := { s with phys := s.phys.write32 f k x }

lemma load32_self (hself : s.table32 1023 = some s.cr3) (ht : s.table32 j = some f) (hk : k < 1024) :
    s.load32 (RECURSIVE_ADDR + j * 4096 + 4 * k) = .ok (s.phys f k) := by
  rw [load32, walk32_self hself ht hk, window32_word hk]

lemma load32_window (hs : s.Recursive32) (ht : s.table32 j = some f) (hk : k < 1024) :
    s.load32 (RECURSIVE_ADDR + j * 4096 + 4 * k) = .ok (s.phys f k) :=
  load32_self (hs.table_self rfl) ht hk

lemma store32_self (hself : s.table32 1023 = some s.cr3) (ht : s.table32 j = some f) (hk : k < 1024) :
    s.store32 (RECURSIVE_ADDR + j * 4096 + 4 * k) x = .ok (s.setWord f k x) := by
  rw [store32, walk32_self hself ht hk, window32_word hk]
  rfl

lemma store32_window (hs : s.Recursive32) (ht : s.table32 j = some f) (hk : k < 1024) :
    s.store32 (RECURSIVE_ADDR + j * 4096 + 4 * k) x = .ok (s.setWord f k x) :=
  store32_self (hs.table_self rfl) ht hk

lemma phys_setWord_self : (s.setWord f k x).phys f k = u32 x := Phys.write32_self

lemma phys_setWord (h : f' = f → k' ≠ k) : (s.setWord f k x).phys f' k' = s.phys f' k' := by
  by_cases hf : f' = f
  · subst hf
    exact Phys.write32_word (h rfl)
  · exact congrFun (Phys.write32_frame hf) k'

lemma entries32_setWord (h : f' = f → k' ≠ k) : (s.setWord f k x).entries32 f' k' = s.entries32 f' k' := by
  rw [entries32, entries32, phys_setWord h]

lemma setWord_ok (hs : s.Recursive32) (hj : j ≠ 1023) (ht : s.table32 j = some f) (k x : ℕ) :
    (s.setWord f k x).Recursive32 ∧ (∀ j', (s.setWord f k x).table32 j' = s.table32 j') ∧
      ∀ j' k', (j' = j → k' ≠ k) → (s.setWord f k x).entryAt32 j' k' = s.entryAt32 j' k' := by
  have hm : ∀ f' k', (f' = f → k' ≠ k) → (s.setWord f k x).entries32 f' k' = s.entries32 f' k' := fun _ _ => entries32_setWord
  exact ⟨hs.of_tables (hs.table_of_write hj ht hm), hs.table_of_write hj ht hm (), fun j' k' h =>
    hs.entry_of_write hj ht hm fun _ => h⟩

lemma memoryMap_self (hself : s.table32 1023 = some s.cr3) (ht : s.table32 (pdOf virt) = some f) (ha : u32 phys % 2 ^ 10 = 0) :
    memoryMap s s.cr3 phys virt flags = .ok (s.setWord f (ptOf virt) (u32 phys ||| flags)) := by
  have hp : Present (s.phys s.cr3 (pdOf virt)) := (exists_of_target ((table32_eq (pdOf_lt virt)).symm.trans ht)).1
  have hst := store32_self (x := u32 phys ||| flags) hself ht (ptOf_lt virt)
  rw [pdOf] at hp hst
  rw [memoryMap]
  simp only [if_pos hp, ok_bind, if_neg (not_not_intro ha)]
  exact hst

lemma memoryMap_present (hs : s.Recursive32) (ht : s.table32 (pdOf virt) = some f) (ha : u32 phys % 2 ^ 10 = 0) :
    memoryMap s s.cr3 phys virt flags = .ok (s.setWord f (ptOf virt) (u32 phys ||| flags)) :=
  memoryMap_self (hs.table_self rfl) ht ha

lemma memoryUnmap_self (hself : s.table32 1023 = some s.cr3) (ht : s.table32 (pdOf virt) = some f) (ha : u32 virt % 2 ^ 10 = 0)
    (hc : clearFrame s.pmm (physicalToFrame (pageOf (s.phys f (ptOf virt)))) = .ok pmm) :
    memoryUnmap s s.cr3 virt = .ok ({ s with pmm := pmm }.setWord f (ptOf virt) 0) := by
  have hp : Present (s.phys s.cr3 (pdOf virt)) := (exists_of_target ((table32_eq (pdOf_lt virt)).symm.trans ht)).1
  have hne : s.phys s.cr3 (u32 virt / 2 ^ 22) ≠ 0 := by
    intro h0
    rw [pdOf, h0] at hp
    cases hp
  have hw := window32 (pdOf_lt virt)
  have hl := load32_self hself ht (ptOf_lt virt)
  have hst := store32_self (s := { s with pmm := pmm }) (x := 0) hself ht (ptOf_lt virt)
  rw [pdOf] at hw hl hst
  rw [memoryUnmap]
  simp only [if_neg hne, if_neg (not_not_intro ha), hw]
  rw [show u32 virt / 2 ^ 12 % 2 ^ 10 = ptOf virt from rfl, hl, ok_bind, hc, ok_bind]
  exact hst

lemma memoryUnmap_present (hs : s.Recursive32) (ht : s.table32 (pdOf virt) = some f) (ha : u32 virt % 2 ^ 10 = 0)
    (hc : clearFrame s.pmm (physicalToFrame (pageOf (s.phys f (ptOf virt)))) = .ok pmm) :
    memoryUnmap s s.cr3 virt = .ok ({ s with pmm := pmm }.setWord f (ptOf virt) 0) :=
  memoryUnmap_self (hs.table_self rfl) ht ha hc

end Paging

end WordOS.Memory
