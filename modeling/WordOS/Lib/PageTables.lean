import Mathlib.Logic.Function.Basic
import Mathlib.Data.Option.Basic

/-! Two levels of page tables in a memory of frames, the directories reached through an entry
that names them. -/

namespace WordOS.Lib.PageTables

variable {F E I J : Type*} (target : E → Option F) (m m' : F → J → E) (dir : I → Option F)

def table (i : I) (j : J) : Option F := (dir i).bind fun d => target (m d j)

def entry (i : I) (j k : J) : Option E :=
  (table target m dir i j).bind fun t => if (target (m t k)).isSome then some (m t k) else none

/-- Entry `r` of each directory names the directory itself, and no frame holds two tables. -/
structure Recursive (r : J) : Prop where
  self : ∀ i d, dir i = some d → target (m d r) = some d
  dir_inj : ∀ i i' d, dir i = some d → dir i' = some d → i = i'
  table_ne_dir : ∀ i j t i', j ≠ r → table target m dir i j = some t → dir i' ≠ some t
  table_inj : ∀ i j i' j' t, j ≠ r → j' ≠ r → table target m dir i j = some t →
    table target m dir i' j' = some t → i = i' ∧ j = j'

/-- A frame that holds neither a directory nor a table. -/
structure Unused (f : F) : Prop where
  not_dir : ∀ i, dir i ≠ some f
  not_table : ∀ i j, table target m dir i j ≠ some f

variable {target m m' dir} {r : J} {i i' : I} {j j' k k' : J} {d t f : F} {e : E}

lemma table_of_dir (hd : dir i = some d) : table target m dir i j = target (m d j) := by
  simp [table, hd]

lemma exists_dir_of_table (ht : table target m dir i j = some t) : ∃ d, dir i = some d ∧ target (m d j) = some t :=
  Option.bind_eq_some_iff.mp ht

lemma entry_of_table (ht : table target m dir i j = some t) :
    entry target m dir i j k = if (target (m t k)).isSome then some (m t k) else none := by
  simp [entry, ht]

lemma entry_of_table_none (ht : table target m dir i j = none) : entry target m dir i j k = none := by
  simp [entry, ht]

lemma table_congr (h : ∀ d, dir i = some d → m' d j = m d j) : table target m' dir i j = table target m dir i j := by
  cases hd : dir i with
  | none => simp [table, hd]
  | some d => rw [table_of_dir hd, table_of_dir hd, h d hd]

lemma entry_congr (ht : table target m' dir i j = table target m dir i j)
    (h : ∀ t, table target m dir i j = some t → m' t k = m t k) : entry target m' dir i j k = entry target m dir i j k := by
  cases htab : table target m dir i j with
  | none => rw [entry_of_table_none htab, entry_of_table_none (ht.trans htab)]
  | some t => rw [entry_of_table htab, entry_of_table (ht.trans htab), h t htab]

namespace Unused

variable (hf : Unused target m dir f) (hm : ∀ f' k', f' ≠ f → m' f' k' = m f' k')
include hf hm

lemma table_of_write (i : I) (j : J) : table target m' dir i j = table target m dir i j :=
  table_congr fun d hd => hm d j (by rintro rfl; exact hf.not_dir i hd)

lemma entry_of_write (i : I) (j k : J) : entry target m' dir i j k = entry target m dir i j k :=
  entry_congr (hf.table_of_write hm i j) fun t ht => hm t k (by rintro rfl; exact hf.not_table i j ht)

end Unused

namespace Recursive

lemma table_self (h : Recursive target m dir r) (hd : dir i = some d) : table target m dir i r = some d := by
  rw [table_of_dir hd, h.self i d hd]

lemma of_tables (h : Recursive target m dir r) (ht : ∀ i j, table target m' dir i j = table target m dir i j) :
    Recursive target m' dir r := by
  refine ⟨fun i d hd => ?_, h.dir_inj, fun i j t i' hj hij => h.table_ne_dir i j t i' hj (ht i j ▸ hij),
    fun i j i' j' t hj hj' hij hij' => h.table_inj i j i' j' t hj hj' (ht i j ▸ hij) (ht i' j' ▸ hij')⟩
  exact (table_of_dir hd).symm.trans ((ht i r).trans (h.table_self hd))

variable (h : Recursive target m dir r)
include h

lemma table_frame (hj : j ≠ r) (ht : table target m dir i j = some t) (ht' : table target m dir i' j' = some t) :
    i = i' ∧ j = j' := by
  by_cases hr : j' = r
  · subst hr
    obtain ⟨d, hd, -⟩ := exists_dir_of_table ht'
    rw [h.table_self hd] at ht'
    obtain rfl := Option.some.inj ht'
    exact absurd hd (h.table_ne_dir i j d i' hj ht)
  · exact h.table_inj i j i' j' t hj hr ht ht'

lemma table_of_write (hj : j ≠ r) (ht : table target m dir i j = some t)
    (hm : ∀ f k', (f = t → k' ≠ k) → m' f k' = m f k') (i' : I) (j' : J) :
    table target m' dir i' j' = table target m dir i' j' :=
  table_congr fun d hd => hm d j' (by rintro rfl; exact absurd hd (h.table_ne_dir i j d i' hj ht))

lemma entry_of_write (hj : j ≠ r) (ht : table target m dir i j = some t)
    (hm : ∀ f k', (f = t → k' ≠ k) → m' f k' = m f k') (hne : i' = i → j' = j → k' ≠ k) :
    entry target m' dir i' j' k' = entry target m dir i' j' k' := by
  refine entry_congr (h.table_of_write hj ht hm i' j') fun t' ht' => hm t' k' ?_
  rintro rfl
  obtain ⟨rfl, rfl⟩ := h.table_frame hj ht ht'
  exact hne rfl rfl

/-- A memory in which entry `j` of directory `i`, which named no table, names the frame `f`. -/
lemma table_of_install (hd : dir i = some d) (hf : Unused target m dir f) (he : target (m' d j) = some f)
    (hm : ∀ f' j', f' ≠ f → (f' = d → j' ≠ j) → m' f' j' = m f' j') :
    table target m' dir i j = some f ∧
      ∀ i' j', (i' = i → j' ≠ j) → table target m' dir i' j' = table target m dir i' j' := by
  refine ⟨by rw [table_of_dir hd, he], fun i' j' hne => table_congr fun d' hd' => hm d' j' ?_ ?_⟩
  · rintro rfl
    exact hf.not_dir i' hd'
  · rintro rfl
    exact hne (h.dir_inj _ _ _ hd' hd)

lemma install (hj : j ≠ r) (hd : dir i = some d) (hf : Unused target m dir f) (he : target (m' d j) = some f)
    (hm : ∀ f' j', f' ≠ f → (f' = d → j' ≠ j) → m' f' j' = m f' j') : Recursive target m' dir r := by
  obtain ⟨hnew, hold⟩ := h.table_of_install hd hf he hm
  -- a table of the new memory is the new one or an old one
  have hcase : ∀ i' j' t, table target m' dir i' j' = some t →
      (i' = i ∧ j' = j ∧ t = f) ∨ table target m dir i' j' = some t := by
    intro i' j' t ht
    by_cases hij : i' = i ∧ j' = j
    · obtain ⟨rfl, rfl⟩ := hij
      exact .inl ⟨rfl, rfl, Option.some.inj (ht.symm.trans hnew)⟩
    · rw [hold i' j' (fun hi hj => hij ⟨hi, hj⟩)] at ht
      exact .inr ht
  refine ⟨fun i' d' hd' => ?_, h.dir_inj, fun i₁ j₁ t i₂ hj₁ ht => ?_, fun i₁ j₁ i₂ j₂ t hj₁ hj₂ ht₁ ht₂ => ?_⟩
  · exact (table_of_dir hd').symm.trans ((hold i' r fun _ => hj.symm).trans (h.table_self hd'))
  · rcases hcase i₁ j₁ t ht with ⟨-, -, rfl⟩ | ht
    · exact hf.not_dir i₂
    · exact h.table_ne_dir i₁ j₁ t i₂ hj₁ ht
  · rcases hcase i₁ j₁ t ht₁ with ⟨rfl, rfl, rfl⟩ | ht₁
    · rcases hcase i₂ j₂ t ht₂ with ⟨rfl, rfl, -⟩ | ht₂
      · exact ⟨rfl, rfl⟩
      · exact absurd ht₂ (hf.not_table i₂ j₂)
    · rcases hcase i₂ j₂ t ht₂ with ⟨rfl, rfl, rfl⟩ | ht₂
      · exact absurd ht₁ (hf.not_table i₁ j₁)
      · exact h.table_inj i₁ j₁ i₂ j₂ t hj₁ hj₂ ht₁ ht₂

/-- With the new table blank, only the page through which it is reached is translated anew. -/
lemma entry_of_install (hj : j ≠ r) (hd : dir i = some d) (hnone : table target m dir i j = none)
    (hf : Unused target m dir f) (he : target (m' d j) = some f)
    (hm : ∀ f' j', f' ≠ f → (f' = d → j' ≠ j) → m' f' j' = m f' j') (hb : ∀ k, target (m' f k) = none)
    (hne : i' = i → j' = r → k' ≠ j) : entry target m' dir i' j' k' = entry target m dir i' j' k' := by
  obtain ⟨hnew, hold⟩ := h.table_of_install hd hf he hm
  by_cases hij : i' = i ∧ j' = j
  · obtain ⟨rfl, rfl⟩ := hij
    rw [entry_of_table hnew, hb, entry_of_table_none hnone]
    rfl
  · refine entry_congr (hold i' j' fun hi hj => hij ⟨hi, hj⟩) fun t ht => hm t k' ?_ ?_
    · rintro rfl
      exact hf.not_table i' j' ht
    · rintro rfl
      -- the table read is the directory itself
      by_cases hr : j' = r
      · subst hr
        obtain ⟨d', hd', -⟩ := exists_dir_of_table ht
        rw [h.table_self hd'] at ht
        obtain rfl := Option.some.inj ht
        exact hne (h.dir_inj _ _ _ hd' hd) rfl
      · exact absurd hd (h.table_ne_dir i' j' t i hr ht)

end Recursive

section Families

variable {I' : Type*} {dir' : I' → Option F}

lemma table_comap {i : I} {i' : I'} (h : dir' i' = dir i) : table target m dir' i' j = table target m dir i j := by
  rw [table, table, h]

/-- Some of the directories of a family. -/
lemma Recursive.comap (φ : I' → I) (h : Recursive target m dir r) (hd : ∀ i d, dir' i = some d → dir (φ i) = some d)
    (hφ : ∀ i i' d d', dir' i = some d → dir' i' = some d' → φ i = φ i' → i = i') : Recursive target m dir' r := by
  have htab : ∀ i j t, table target m dir' i j = some t → table target m dir (φ i) j = some t := by
    intro i j t ht
    obtain ⟨d, hd', htd⟩ := exists_dir_of_table ht
    rw [table_of_dir (hd i d hd'), htd]
  refine ⟨fun i d hd' => h.self (φ i) d (hd i d hd'), fun i i' d hi hi' => ?_, fun i j t i' hj ht hi' => ?_,
    fun i j i' j' t hj hj' ht ht' => ?_⟩
  · exact hφ i i' d d hi hi' (h.dir_inj _ _ d (hd i d hi) (hd i' d hi'))
  · exact h.table_ne_dir (φ i) j t (φ i') hj (htab i j t ht) (hd i' t hi')
  · obtain ⟨d, hi, -⟩ := exists_dir_of_table ht
    obtain ⟨d', hi', -⟩ := exists_dir_of_table ht'
    obtain ⟨hij, hjj⟩ := h.table_inj (φ i) j (φ i') j' t hj hj' (htab i j t ht) (htab i' j' t ht')
    exact ⟨hφ i i' d d' hi hi' hij, hjj⟩

lemma Unused.comap (φ : I' → I) (h : Unused target m dir f) (hd : ∀ i d, dir' i = some d → dir (φ i) = some d) :
    Unused target m dir' f := by
  refine ⟨fun i hi => h.not_dir (φ i) (hd i f hi), fun i j ht => ?_⟩
  obtain ⟨d, hi, htd⟩ := exists_dir_of_table ht
  apply h.not_table (φ i) j
  rw [table_of_dir (hd i d hi), htd]

variable [DecidableEq I]

lemma table_update_ne (h : i' ≠ i) : table target m (Function.update dir i (some f)) i' j = table target m dir i' j :=
  table_comap (Function.update_of_ne h _ _)

lemma table_update_self : table target m (Function.update dir i (some f)) i j = target (m f j) :=
  table_of_dir (Function.update_self i (some f) dir)

/-- One more directory, without tables. -/
lemma Recursive.add (h : Recursive target m dir r) (hf : Unused target m dir f) (hself : target (m f r) = some f)
    (hblank : ∀ j, j ≠ r → target (m f j) = none) : Recursive target m (Function.update dir i (some f)) r := by
  have hdir : ∀ i' d, Function.update dir i (some f) i' = some d → i' = i ∧ d = f ∨ i' ≠ i ∧ dir i' = some d := by
    intro i' d hd
    by_cases hi : i' = i
    · subst hi
      rw [Function.update_self] at hd
      exact .inl ⟨rfl, (Option.some.inj hd).symm⟩
    · rw [Function.update_of_ne hi] at hd
      exact .inr ⟨hi, hd⟩
  have htab : ∀ i' j t, j ≠ r → table target m (Function.update dir i (some f)) i' j = some t →
      i' ≠ i ∧ table target m dir i' j = some t := by
    intro i' j t hj ht
    by_cases hi : i' = i
    · subst hi
      rw [table_update_self, hblank j hj] at ht
      cases ht
    · rw [table_update_ne hi] at ht
      exact ⟨hi, ht⟩
  refine ⟨fun i' d hd => ?_, fun i₁ i₂ d h₁ h₂ => ?_, fun i₁ j t i₂ hj ht h₂ => ?_, fun i₁ j₁ i₂ j₂ t hj₁ hj₂ ht₁ ht₂ => ?_⟩
  · rcases hdir i' d hd with ⟨-, rfl⟩ | ⟨-, hd⟩
    · exact hself
    · exact h.self i' d hd
  · rcases hdir i₁ d h₁ with ⟨hi₁, rfl⟩ | ⟨-, ho₁⟩
    · rcases hdir i₂ d h₂ with ⟨hi₂, -⟩ | ⟨-, ho₂⟩
      · exact hi₁.trans hi₂.symm
      · exact absurd ho₂ (hf.not_dir i₂)
    · rcases hdir i₂ d h₂ with ⟨-, rfl⟩ | ⟨-, ho₂⟩
      · exact absurd ho₁ (hf.not_dir i₁)
      · exact h.dir_inj i₁ i₂ d ho₁ ho₂
  · obtain ⟨-, hold⟩ := htab i₁ j t hj ht
    rcases hdir i₂ t h₂ with ⟨-, rfl⟩ | ⟨-, ho₂⟩
    · exact hf.not_table i₁ j hold
    · exact h.table_ne_dir i₁ j t i₂ hj hold ho₂
  · exact h.table_inj i₁ j₁ i₂ j₂ t hj₁ hj₂ (htab i₁ j₁ t hj₁ ht₁).2 (htab i₂ j₂ t hj₂ ht₂).2

end Families

end WordOS.Lib.PageTables
