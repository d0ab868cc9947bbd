import Mathlib.Data.List.Basic
import Mathlib.Logic.Function.Basic

/-! Singly linked lists in a memory of `next` links; `0` is the null link. -/

namespace WordOS.Lib.LinkedList

/-- Following `next` from `p` passes the nodes of `l` and arrives at `r`. -/
def Seg (next : ℕ → ℕ) : ℕ → List ℕ → ℕ → Prop
  | p, [], r => p = r
  | p, q :: l, r => p = q ∧ q ≠ 0 ∧ Seg next (next q) l r

abbrev Chain (next : ℕ → ℕ) (p : ℕ) (l : List ℕ) : Prop := Seg next p l 0

variable {next next' : ℕ → ℕ} {p q r : ℕ} {l l' : List ℕ}

lemma mem_of_split (h : q ∈ l ++ p :: l') (hne : q ≠ p) : q ∈ l ++ l' :=
  (List.mem_cons.mp (List.perm_middle.mem_iff.mp h)).resolve_left hne

lemma mem_split (h : q ∈ l ++ l') : q ∈ l ++ p :: l' := List.perm_middle.mem_iff.mpr (List.mem_cons_of_mem p h)

lemma mem_split_snoc (h : q ∈ l ++ l') : q ∈ l ++ [p] ++ l' := List.append_cons l p l' ▸ mem_split h

lemma mem_behind {a : ℕ} : a ∈ l ++ p :: q :: l' ↔ a = q ∨ a ∈ l ++ p :: l' := by
  rw [List.append_cons l p, List.perm_middle.mem_iff, List.mem_cons, List.append_assoc, List.singleton_append]

lemma getLastD_mem {α : Type*} {a : α} {l : List α} : l.getLastD a = a ∨ l.getLastD a ∈ l := by
  rcases List.eq_nil_or_concat l with rfl | ⟨l₀, b, rfl⟩
  · exact .inl rfl
  · exact .inr (by simp)

/-- A relation between neighbours holds along a list up to `q`, at `q` and from `q` on. -/
lemma isChain_at {α : Type*} {R : α → α → Prop} {p q : α} {l l' : List α} :
    (p :: (l ++ q :: l')).IsChain R ↔ (p :: l).IsChain R ∧ R (l.getLastD p) q ∧ (q :: l').IsChain R := by
  induction l generalizing p with
  | nil => simp [List.isChain_cons_cons]
  | cons a l ih => rw [List.cons_append, List.isChain_cons_cons, ih, List.isChain_cons_cons, List.getLastD_cons, and_assoc]

lemma seg_append : Seg next p (l ++ l') r ↔ ∃ m, Seg next p l m ∧ Seg next m l' r := by
  induction l generalizing p with
  | nil => simp [Seg]
  | cons a l ih => simp [Seg, ih, and_assoc]

lemma seg_snoc : Seg next p (l ++ [q]) r ↔ Seg next p l q ∧ q ≠ 0 ∧ next q = r := by
  simp [seg_append, Seg]

lemma Seg.congr (h : Seg next p l r) (hn : ∀ q ∈ l, next' q = next q) : Seg next' p l r := by
  induction l generalizing p with
  | nil => exact h
  | cons a l ih =>
    obtain ⟨rfl, h0, hl⟩ := h
    refine ⟨rfl, h0, ih ?_ fun q hq => hn q (List.mem_cons_of_mem _ hq)⟩
    rwa [hn p List.mem_cons_self]

lemma Seg.ne_zero (h : Seg next p l r) (hq : q ∈ l) : q ≠ 0 := by
  induction l generalizing p with
  | nil => simp at hq
  | cons a l ih =>
    obtain ⟨_, h0, hl⟩ := h
    rcases List.mem_cons.mp hq with rfl | hq
    · exact h0
    · exact ih hl hq

lemma Chain.unique (h : Chain next p l) (h' : Chain next p l') : l = l' := by
  induction l generalizing p l' with
  | nil =>
    cases l' with
    | nil => rfl
    | cons b l' => exact (h'.2.1 (h'.1.symm.trans h)).elim
  | cons a l ih =>
    cases l' with
    | nil => exact (h.2.1 (h.1.symm.trans h')).elim
    | cons b l' =>
      obtain ⟨rfl, _, h⟩ := h
      obtain ⟨rfl, _, h'⟩ := h'
      rw [ih h h']

lemma Chain.nodup (h : Chain next p l) : l.Nodup := by
  induction l generalizing p with
  | nil => exact List.nodup_nil
  | cons a l ih =>
    obtain ⟨rfl, h0, hl⟩ := h
    refine List.nodup_cons.mpr ⟨?_, ih hl⟩
    intro hm
    obtain ⟨b, c, rfl⟩ := List.append_of_mem hm
    obtain ⟨m, _, hc⟩ := seg_append.mp hl
    obtain rfl := hc.1
    have := congrArg List.length (Chain.unique hl hc.2.2)
    simp at this
    omega

lemma Seg.head (h : Seg next p l r) : p = l.headD r := by
  cases l with
  | nil => exact h
  | cons a l => exact h.1

lemma Seg.cons_of_ne (h : Seg next p l r) (hne : p ≠ r) : ∃ l', l = p :: l' ∧ Seg next (next p) l' r := by
  cases l with
  | nil => exact (hne h).elim
  | cons a l =>
    obtain ⟨rfl, _, h⟩ := h
    exact ⟨l, rfl, h⟩

lemma Chain.head (h : Chain next p l) : p = l.headD 0 := Seg.head h

lemma Chain.start_ne_zero (h : Chain next p (l ++ q :: l')) : p ≠ 0 := by
  cases l with
  | nil => exact h.1 ▸ h.2.1
  | cons a l => exact h.1 ▸ h.2.1

lemma Chain.start_ne (h : Chain next p (l ++ r :: q :: l')) : p ≠ q := by
  have hd := h.nodup
  rw [h.head]
  cases l with
  | nil =>
    simp only [List.nil_append, List.nodup_cons, List.mem_cons, not_or] at hd
    exact hd.1.1
  | cons a l =>
    simp only [List.cons_append, List.nodup_cons, List.mem_append, List.mem_cons, not_or] at hd
    exact hd.1.2.2.1

lemma Chain.next_eq (h : Chain next p (l ++ q :: l')) : next q = l'.headD 0 := by
  obtain ⟨_, _, _, _, h⟩ := seg_append.mp h
  exact Chain.head h

lemma Seg.remove {e : ℕ} (h : Seg next p (l ++ r :: q :: l') e) (hr : next' r = next q)
    (ho : ∀ a ∈ l ++ l', next' a = next a) : Seg next' p (l ++ r :: l') e := by
  obtain ⟨m, hl, rfl, hr0, hq, _, hl'⟩ := seg_append.mp h
  refine seg_append.mpr ⟨m, hl.congr fun a ha => ho a (List.mem_append_left _ ha), rfl, hr0, ?_⟩
  rw [hr]
  exact hl'.congr fun a ha => ho a (List.mem_append_right _ ha)

lemma Seg.insert {e : ℕ} (h : Seg next p (l ++ r :: l') e) (hq : q ≠ 0) (hr : next' r = q) (hn : next' q = next r)
    (ho : ∀ a ∈ l ++ l', next' a = next a) : Seg next' p (l ++ r :: q :: l') e := by
  obtain ⟨m, hl, rfl, hr0, hl'⟩ := seg_append.mp h
  refine seg_append.mpr ⟨m, hl.congr fun a ha => ho a (List.mem_append_left _ ha), rfl, hr0, hr, hq, ?_⟩
  rw [hn]
  exact hl'.congr fun a ha => ho a (List.mem_append_right _ ha)

lemma Chain.remove (h : Chain next p (l ++ r :: q :: l')) :
    Chain (Function.update next r (next q)) p (l ++ r :: l') := by
  have hd := h.nodup
  refine Seg.remove h (Function.update_self ..) fun a ha => Function.update_of_ne ?_ ..
  rintro rfl
  simp only [List.nodup_append, List.nodup_cons, List.mem_cons] at hd
  rcases List.mem_append.mp ha with ha | ha
  · exact hd.2.2 a ha a (.inl rfl) rfl
  · exact hd.2.1.1 (.inr ha)

lemma Chain.cut (h : Chain next p (l ++ q :: l')) : Chain (Function.update next q 0) p (l ++ [q]) := by
  have hd := h.nodup
  obtain ⟨m, hl, rfl, hq, _⟩ := seg_append.mp h
  refine seg_snoc.mpr ⟨hl.congr fun a ha => ?_, hq, Function.update_self ..⟩
  exact Function.update_of_ne ((List.nodup_append.mp hd).2.2 a ha _ (by simp)) ..

lemma Seg.extend {e e' : ℕ} (h : Seg next p (l ++ [r]) e) (hq : q ≠ 0) (hr : next' r = q) (hn : next' q = e')
    (ho : ∀ a ∈ l, next' a = next a) : Seg next' p (l ++ [r] ++ [q]) e' := by
  obtain ⟨hl, hr0, _⟩ := seg_snoc.mp h
  exact seg_snoc.mpr ⟨seg_snoc.mpr ⟨hl.congr ho, hr0, hr⟩, hq, hn⟩

lemma Chain.append (h : Chain next p (l ++ [r])) (hq : q ≠ 0) (hn : q ∉ l ++ [r]) (h0 : next q = 0) :
    Chain (Function.update next r q) p (l ++ [r] ++ [q]) := by
  have hd := h.nodup
  have hrl : r ∉ l := fun hm => (List.nodup_append.mp hd).2.2 _ hm r (by simp) rfl
  have hqr : q ≠ r := by
    rintro rfl
    simp at hn
  refine Seg.extend h hq (Function.update_self ..) ((Function.update_of_ne hqr ..).trans h0) fun a ha => ?_
  exact Function.update_of_ne (by rintro rfl; exact hrl ha) ..

section

/-! Walks that only go up. -/

variable (hup : ∀ a, a < next a)
include hup

lemma Seg.start_le (h : Seg next p l r) : p ≤ r := by
  induction l generalizing p with
  | nil => exact Nat.le_of_eq h
  | cons a l ih =>
    obtain ⟨rfl, _, hl⟩ := h
    exact Nat.le_trans (Nat.le_of_lt (hup p)) (ih hl)

lemma Seg.start_le_mem (h : Seg next p l r) (hq : q ∈ l) : p ≤ q := by
  obtain ⟨a, b, rfl⟩ := List.append_of_mem hq
  obtain ⟨m, ha, rfl, _⟩ := seg_append.mp h
  exact ha.start_le hup

lemma Seg.next_le (h : Seg next p l r) (hq : q ∈ l) : next q ≤ r := by
  obtain ⟨a, b, rfl⟩ := List.append_of_mem hq
  obtain ⟨_, _, rfl, _, hb⟩ := seg_append.mp h
  exact hb.start_le hup

lemma Seg.split_of_lt (h : Seg next p l r) (h' : Seg next p l' q) (hlt : q < r) : ∃ l'', l = l' ++ q :: l'' := by
  induction l' generalizing p l with
  | nil =>
    cases l with
    | nil =>
      have hpr : p = r := h
      have hpq : p = q := h'
      omega
    | cons a l => exact ⟨l, by rw [← h.1, ← show p = q from h', List.nil_append]⟩
  | cons b l' ih =>
    cases l with
    | nil =>
      have hpr : p = r := h
      have := h'.start_le hup
      omega
    | cons a l =>
      obtain ⟨rfl, _, h⟩ := h
      obtain ⟨rfl, _, h'⟩ := h'
      obtain ⟨l'', rfl⟩ := ih h h'
      exact ⟨l'', rfl⟩

lemma Seg.eq_nil (h : Seg next p l p) : l = [] := by
  cases l with
  | nil => rfl
  | cons a l =>
    have hle : next a ≤ p := h.next_le hup (by simp)
    have ha := hup a
    have hpa : p = a := h.1
    omega

lemma Seg.unique (h : Seg next p l r) (h' : Seg next p l' r) : l = l' := by
  induction l generalizing p l' with
  | nil =>
    obtain rfl : p = r := h
    exact (h'.eq_nil hup).symm
  | cons a l ih =>
    have hle := h.next_le hup (q := a) (by simp)
    obtain ⟨rfl, -, hl⟩ := h
    have hlt := hup p
    obtain ⟨l'', rfl, hl''⟩ := h'.cons_of_ne (by omega)
    rw [ih hl hl'']

lemma Seg.pairwise (h : Seg next p l r) : l.Pairwise (fun a b => next a ≤ b) := by
  induction l generalizing p with
  | nil => exact List.Pairwise.nil
  | cons a l ih =>
    obtain ⟨rfl, _, hl⟩ := h
    exact List.Pairwise.cons (fun b hb => hl.start_le_mem hup hb) (ih hl)

end

end WordOS.Lib.LinkedList
