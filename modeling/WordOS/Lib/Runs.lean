import Mathlib.Data.List.Forall2
import Mathlib.Logic.Relation

/-! Labelled runs of a transition system, with the invariant rule and composition. -/

namespace WordOS.Lib.Runs

variable {σ α : Type*} {step : σ → α → σ → Prop}

/-- A finite run, growing at its end, with the labels of its steps in order. -/
inductive Run (step : σ → α → σ → Prop) : σ → List α → σ → Prop
  | nil (s) : Run step s [] s
  | snoc {s t u as a} : Run step s as t → step t a u → Run step s (as ++ [a]) u

namespace Run

variable {s t u : σ} {as bs : List α} {a : α}

lemma single (h : step s a t) : Run step s [a] t := .snoc (.nil s) h

lemma append (h : Run step s as t) (h' : Run step t bs u) : Run step s (as ++ bs) u := by
  induction h' with
  | nil => simpa using h
  | snoc _ hs ih => simpa only [List.append_assoc] using Run.snoc ih hs

lemma cons (h : step s a t) (h' : Run step t as u) : Run step s (a :: as) u :=
  (single h).append h'

lemma invariant {I : σ → Prop} (hs : ∀ s a t, I s → step s a t → I t)
    (h : Run step s as t) (h0 : I s) : I t := by
  induction h with
  | nil => exact h0
  | snoc _ ht ih => exact hs _ _ _ ih ht

lemma mono {step' : σ → α → σ → Prop} (hs : ∀ s a t, step s a t → step' s a t)
    (h : Run step s as t) : Run step' s as t := by
  induction h with
  | nil => exact .nil _
  | snoc _ ht ih => exact .snoc ih (hs _ _ _ ht)

/-- The rule of a simulation by a function: the labels alone say what `x` becomes. -/
lemma foldl {β : Type*} {next : β → α → β} {R : σ → β → Prop} {x : β} (h : Run step s as t)
    (hs : ∀ s a t x, R s x → step s a t → R t (next x a)) (h0 : R s x) : R t (as.foldl next x) := by
  induction h with
  | nil => exact h0
  | snoc _ ht ih =>
    rw [List.foldl_append]
    exact hs _ _ _ _ ih ht

end Run

end WordOS.Lib.Runs
