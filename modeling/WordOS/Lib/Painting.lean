import Mathlib.Data.List.Basic
import Mathlib.Data.List.Induction
import Mathlib.Logic.Function.Basic

/-! Memories after a list of writes, of which the last to an address counts. -/

namespace WordOS.Lib.Painting

variable {α β : Type*} [DecidableEq α] {m : α → β} {ws : List (α × β)} {a : α} {v : β}

def paint (m : α → β) (ws : List (α × β)) : α → β := ws.foldl (fun m w => Function.update m w.1 w.2) m

lemma paint_append (ws ws' : List (α × β)) : paint m (ws ++ ws') = paint (paint m ws) ws' := List.foldl_append

lemma paint_snoc (w : α × β) : paint m (ws ++ [w]) = Function.update (paint m ws) w.1 w.2 := paint_append ws [w]

lemma paint_of_ne (h : ∀ w ∈ ws, w.1 ≠ a) : paint m ws a = m a := by
  induction ws using List.reverseRecOn with
  | nil => rfl
  | append_singleton ws w ih =>
    rw [List.forall_mem_append, List.forall_mem_singleton] at h
    rw [paint_snoc, Function.update_of_ne h.2.symm, ih h.1]

lemma paint_of_mem (hmem : (a, v) ∈ ws) (h : ∀ w ∈ ws, w.1 = a → w.2 = v) : paint m ws a = v := by
  induction ws using List.reverseRecOn with
  | nil => cases hmem
  | append_singleton ws w ih =>
    rw [List.forall_mem_append, List.forall_mem_singleton] at h
    rw [paint_snoc]
    by_cases hw : w.1 = a
    · rw [← hw, Function.update_self, h.2 hw]
    · rw [Function.update_of_ne (Ne.symm hw)]
      rcases List.mem_append.mp hmem with hmem | hmem
      · exact ih hmem h.1
      · exact absurd (congrArg Prod.fst (List.mem_singleton.mp hmem)).symm hw

end WordOS.Lib.Painting
