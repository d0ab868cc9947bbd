import WordOS.Memory.VmmTree
import WordOS.Utils.RbSearch

/-! The search of `vmm_page_alloc` is best fit, and agrees with `find_node` on exact sizes. -/

namespace WordOS.Memory

open Machine BinaryTree Utils Lib.Zipper Lib.ColoredTree

/-- Of the entries of `t` with at least `length` bytes, `e` has the fewest. -/
def BestFit (t : RbTree) (length : ℕ) (e : Entry) : Prop :=
  e ∈ vals t ∧ length ≤ e.size ∧ ∀ e' ∈ vals t, length ≤ e'.size → e.size ≤ e'.size

variable {rest : Ptr → RbNode} {s : RbState} {c : RbPath} {t : RbTree} {best : Option (RbPath × RbTree)} {length fuel : ℕ}

lemma fit_none (hno : ∀ e ∈ vals t, e.size < length) : fit length c t best = best := by
  induction t generalizing c with
  | nil => rfl
  | node a l r _ ihr =>
    have ha : a.val.size < length := hno a.val (mem_vals_node.mpr (.inr (.inl rfl)))
    rw [fit, if_neg (by omega), if_pos ha.le]
    exact ihr fun e he => hno e (mem_vals_node.mpr (.inr (.inr he)))

lemma fit_best (c : RbPath) (best : Option (RbPath × RbTree)) (ho : Sorted t) (he : ∃ e ∈ vals t, length ≤ e.size) :
    ∃ c' a l r, fit length c t best = some (c', node a l r) ∧ BestFit t length a.val := by
  induction t generalizing c best with
  | nil =>
    obtain ⟨e, he, -⟩ := he
    cases he
  | node a l r ihl ihr =>
    obtain ⟨hl, hr, hle, hge⟩ := Sorted.node_iff.mp ho
    have ha : a.val ∈ vals (node a l r) := mem_vals_node.mpr (.inr (.inl rfl))
    rw [fit]
    split_ifs with heq hlt
    · exact ⟨c, a, l, r, rfl, ha, heq.ge, fun e' _ he' => by omega⟩
    · -- the nodes up to this one are too small
      have hsmall : ∀ e ∈ vals (node a l r), length ≤ e.size → e ∈ vals r := by
        intro e he hs
        rcases mem_vals_node.mp he with he | rfl | he
        · have := hle e he
          omega
        · omega
        · exact he
      obtain ⟨e, he, hs⟩ := he
      obtain ⟨c', b, x, y, hf, hb, hbs, hmin⟩ := ihr _ _ hr ⟨e, hsmall e he hs, hs⟩
      exact ⟨c', b, x, y, hf, mem_vals_node.mpr (.inr (.inr hb)), hbs, fun e' he' hs' => hmin e' (hsmall e' he' hs') hs'⟩
    · -- the nodes behind this one are no better
      by_cases hex : ∃ e ∈ vals l, length ≤ e.size
      · obtain ⟨c', b, x, y, hf, hb, hbs, hmin⟩ := ihl _ _ hl hex
        refine ⟨c', b, x, y, hf, mem_vals_node.mpr (.inl hb), hbs, fun e' he' hs' => ?_⟩
        have hba := hle b.val hb
        rcases mem_vals_node.mp he' with he' | rfl | he'
        · exact hmin e' he' hs'
        · exact hba
        · exact hba.trans (hge e' he')
      · push Not at hex
        rw [fit_none hex]
        refine ⟨c, a, l, r, rfl, ha, by omega, fun e' he' hs' => ?_⟩
        rcases mem_vals_node.mp he' with he' | rfl | he'
        · have := hex e' he'
          omega
        · exact le_rfl
        · exact hge e' he'

lemma ptr_ne_zero (h : Represents rest s t) {e : Entry} (he : e ∈ vals t) : e.ptr ≠ 0 := by
  intro h0
  apply h.ne_zero (c := [])
  rw [pathPtrs, List.nil_append, ← h0]
  exact List.mem_map_of_mem he

lemma fitAddr_cases (length : ℕ) (h : Represents rest s t) (ho : Sorted t) :
    fitAddr (fit length [] t none) = 0 ∧ (∀ e ∈ vals t, e.size < length) ∨
      fitAddr (fit length [] t none) ≠ 0 ∧ ∃ e, e.ptr = fitAddr (fit length [] t none) ∧ BestFit t length e := by
  by_cases hex : ∃ e ∈ vals t, length ≤ e.size
  · obtain ⟨c', a, l, r, hfit, hb⟩ := fit_best [] none ho hex
    rw [hfit]
    exact .inr ⟨ptr_ne_zero h hb.1, a.val, rfl, hb⟩
  · push Not at hex
    exact .inl ⟨by rw [fit_none hex]; rfl, hex⟩

lemma findAddr_cases (length : ℕ) (h : Represents rest s t) (ho : Sorted t) :
    addr (find length t) = 0 ∧ (∀ e ∈ vals t, e.size ≠ length) ∨
      addr (find length t) ≠ 0 ∧ ∃ e ∈ vals t, e.ptr = addr (find length t) ∧ e.size = length := by
  by_cases hex : ∃ e ∈ vals t, e.size = length
  · obtain ⟨e, he, hs⟩ := hex
    obtain ⟨b, l, r, hfind, hb, hbs⟩ := find_of_mem ho he hs
    rw [hfind]
    exact .inr ⟨ptr_ne_zero h hb, b.val, hb, rfl, hbs⟩
  · push Not at hex
    refine .inl ⟨?_, hex⟩
    cases hfind : find length t with
    | nil => rfl
    | node b l r => exact absurd (find_size hfind).2 (hex b.val (find_size hfind).1)

/-- The search finds a node of the smallest size that is large enough, and nothing exactly if there is none; `find_node`
finds a node of exactly the size asked for if there is one, and then so does the search. -/
theorem bestFit_best (h : Represents rest s t) (ho : Sorted t) (hf : (ptrs t).length < fuel) :
    ∃ best found, bestFit fuel s length s.root 0 = .ok best ∧ findNode fuel s length s.root = .ok found ∧
      (best = 0 ↔ ∀ e ∈ vals t, e.size < length) ∧ (best ≠ 0 → ∃ e, e.ptr = best ∧ BestFit t length e) ∧
      (found ≠ 0 ↔ ∃ e ∈ vals t, e.size = length) ∧ (found ≠ 0 → (∃ e ∈ vals t, e.ptr = found ∧ e.size = length) ∧
        ∃ e ∈ vals t, e.ptr = best ∧ e.size = length) := by
  have hbest : bestFit fuel s length s.root 0 = .ok (fitAddr (fit length [] t none)) := by
    have hfit : bestFit fuel s length (addr t) (fitAddr none) = _ := bestFit_ok (c := []) h (.inl hf)
    rw [h.root]
    exact hfit
  have hfind : findNode fuel s length s.root = .ok (addr (find length t)) := by
    rw [h.root]
    exact findNode_ok (c := []) h hf
  refine ⟨_, _, hbest, hfind, ?_⟩
  rcases fitAddr_cases length h ho with ⟨h0, hsmall⟩ | ⟨hne, e, he, hb⟩
  · -- no node is large enough
    have hno : ∀ e ∈ vals t, e.size ≠ length := fun e he => (hsmall e he).ne
    obtain ⟨hf0, -⟩ := (findAddr_cases length h ho).resolve_right fun ⟨_, e, he, _, hs⟩ => hno e he hs
    refine ⟨iff_of_true h0 hsmall, fun hne => absurd h0 hne, iff_of_false (not_not_intro hf0) ?_, fun hne => absurd hf0 hne⟩
    rintro ⟨e, he, hs⟩
    exact hno e he hs
  · refine ⟨iff_of_false hne fun hall => ?_, fun _ => ⟨e, he, hb⟩, ?_⟩
    · have := hall e hb.1
      have := hb.2.1
      omega
    rcases findAddr_cases length h ho with ⟨hf0, hno⟩ | ⟨hfne, e', he', hp', hs'⟩
    · refine ⟨iff_of_false (not_not_intro hf0) ?_, fun hne => absurd hf0 hne⟩
      rintro ⟨e, he, hs⟩
      exact hno e he hs
    · refine ⟨iff_of_true hfne ⟨e', he', hs'⟩, fun _ => ⟨⟨e', he', hp', hs'⟩, e, hb.1, he, ?_⟩⟩
      exact le_antisymm (hs' ▸ hb.2.2 e' he' hs'.ge) hb.2.1

/-- Two ranges of one size, the second one on the right of the first. -/
def twoPages : RbTree := node ⟨.black, 64, 0, 0x10000, 4096, 3⟩ nil (node ⟨.red, 96, 0, 0x20000, 4096, 3⟩ nil nil)

theorem bestFit_best_two : ∃ best found,
    bestFit 3 ⟨lay (fun _ => blankNode) 0 twoPages, 64⟩ 4096 64 0 = .ok best ∧
      findNode 3 ⟨lay (fun _ => blankNode) 0 twoPages, 64⟩ 4096 64 = .ok found ∧
      (best = 0 ↔ ∀ e ∈ vals twoPages, e.size < 4096) ∧ (best ≠ 0 → ∃ e, e.ptr = best ∧ BestFit twoPages 4096 e) ∧
      (found ≠ 0 ↔ ∃ e ∈ vals twoPages, e.size = 4096) ∧
      (found ≠ 0 → (∃ e ∈ vals twoPages, e.ptr = found ∧ e.size = 4096) ∧
        ∃ e ∈ vals twoPages, e.ptr = best ∧ e.size = 4096) :=
  bestFit_best (represents_lay (fun _ => blankNode) (t := twoPages) (by decide) (by decide))
    (by simp [Sorted, twoPages]) (by decide)

end WordOS.Memory
