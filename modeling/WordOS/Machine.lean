import Mathlib.Algebra.Group.Int.Defs
import Mathlib.Algebra.Group.Nat.Defs
import Mathlib.Data.Int.Basic
import Mathlib.Data.Nat.Basic

/-! What the C code of the kernel runs on: an execution either goes on or halts the machine. -/

namespace WordOS.Machine

/-- The ways control does not come back: `panic` (which disables interrupts and
halts), and an access outside the memory a component owns, NULL included. -/
inductive Halt
  | panic (reason : String)
  | fault
  | fuel
  deriving DecidableEq, Repr

abbrev Exec := Except Halt

section

variable {α β : Type} {f : α → Exec β} {x : Exec α} {b : β}

@[simp] lemma ok_bind (a : α) : (Except.ok a >>= f : Exec β) = f a := rfl

@[simp] lemma error_bind (h : Halt) : ((Except.error h : Exec α) >>= f) = .error h := rfl

@[simp] lemma pure_eq (a : α) : (pure a : Exec α) = .ok a := rfl

@[simp] lemma throw_eq (h : Halt) : (throw h : Exec α) = .error h := rfl

lemma ne_fuel {a : α} {x : Exec α} (h : x = .ok a) : x ≠ .error .fuel := by
  simp [h]

lemma exists_of_toOption_map {γ : Type} {x : Exec α} {g : α → γ} {c : γ} (h : x.toOption.map g = some c) :
    ∃ a, x = .ok a ∧ g a = c := by
  cases x with
  | error e => simp [Except.toOption] at h
  | ok a => exact ⟨a, rfl, Option.some.inj h⟩

lemma bind_eq_ok : (x >>= f) = .ok b ↔ ∃ a, x = .ok a ∧ f a = .ok b := by
  cases x <;> simp

/-- A `let` with a conditional value in the middle of a sequence. -/
lemma ite_bind_eq_ok {c : Prop} [Decidable c] {y : Exec α} (h : (if c then x >>= f else y >>= f) = .ok b) :
    ∃ a, (if c then x else y) = .ok a ∧ f a = .ok b := by
  split_ifs at h ⊢ with hc
  · exact bind_eq_ok.mp h
  · exact bind_eq_ok.mp h

lemma foldlM_keeps {g : β → α → Exec β} {I : β → Prop} (hs : ∀ b a c, I b → g b a = .ok c → I c) {as : List α} {b c : β}
    (h : as.foldlM g b = .ok c) (hb : I b) : I c := by
  induction as generalizing b with
  | nil => exact Except.ok.inj h ▸ hb
  | cons a as ih =>
    rw [List.foldlM_cons] at h
    obtain ⟨d, hd, hrest⟩ := bind_eq_ok.mp h
    exact ih hrest (hs b a d hb hd)

/-- Every step of a sequence meets its condition, as long as those before it come back. -/
def Along (g : β → α → Exec β) (P : β → α → Prop) : List α → β → Prop
  | [], _ => True
  | a :: as, b => P b a ∧ ∀ c, g b a = .ok c → Along g P as c

lemma foldlM_of_along {g : β → α → Exec β} {P : β → α → Prop} {I : β → Prop}
    (hs : ∀ b a, I b → P b a → ∃ c, g b a = .ok c ∧ I c) {as : List α} {b : β} (h : Along g P as b) (hb : I b) :
    ∃ c, as.foldlM g b = .ok c ∧ I c := by
  induction as generalizing b with
  | nil => exact ⟨b, rfl, hb⟩
  | cons a as ih =>
    obtain ⟨c, hc, hIc⟩ := hs b a hb h.1
    rw [List.foldlM_cons, hc]
    exact ih (h.2 c hc) hIc

lemma foldlM_returns_iff {g : β → α → Exec β} {P : β → α → Prop} (hs : ∀ b a, (∃ c, g b a = .ok c) ↔ P b a) (as : List α)
    (b : β) : (∃ c, as.foldlM g b = .ok c) ↔ Along g P as b := by
  induction as generalizing b with
  | nil => exact iff_of_true ⟨b, rfl⟩ trivial
  | cons a as ih =>
    constructor
    · rintro ⟨c, hc⟩
      rw [List.foldlM_cons] at hc
      obtain ⟨d, hd, hrest⟩ := bind_eq_ok.mp hc
      refine ⟨(hs b a).mp ⟨d, hd⟩, fun e he => ?_⟩
      rw [hd] at he
      exact (ih e).mp ⟨c, Except.ok.inj he ▸ hrest⟩
    · rintro ⟨hP, hrest⟩
      obtain ⟨d, hd⟩ := (hs b a).mpr hP
      obtain ⟨c, hc⟩ := (ih d).mpr (hrest d hd)
      exact ⟨c, by rw [List.foldlM_cons, hd]; exact hc⟩

end

/-- The value of a 32-bit unsigned expression. -/
def u32 (x : ℕ) : ℕ := x % 2 ^ 32

@[simp] lemma u32_u32 (x : ℕ) : u32 (u32 x) = u32 x := Nat.mod_mod ..

lemma u32_eq {x : ℕ} (h : x < 2 ^ 32) : u32 x = x := Nat.mod_eq_of_lt h

def int32 (x : ℕ) : ℤ := if u32 x < 2 ^ 31 then u32 x else u32 x - 2 ^ 32

lemma int32_eq {x : ℕ} (h : x < 2 ^ 31) : int32 x = x := by
  rw [int32, u32_eq (by omega), if_pos h]

end WordOS.Machine
