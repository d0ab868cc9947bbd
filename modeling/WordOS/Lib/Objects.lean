import WordOS.Lib.Runs
import Mathlib.Logic.Function.Basic
import Mathlib.Tactic

/-! Objects: ranges of cells that are made, written and dropped, and a memory that holds them apart. -/

namespace WordOS.Lib.Objects

/-- A range of cells, with what was written to them since it was made. -/
structure Object (V : Type*) where
  size : ℕ
  cells : ℕ → Option V

/-- The objects there are, by their first address. -/
abbrev Store (V : Type*) := ℕ → Option (Object V)

inductive Op (V : Type*)
  | make (p n : ℕ)
  | drop (p : ℕ)
  | write (p i : ℕ) (v : V)

def Separate (p m q n : ℕ) : Prop := p + m ≤ q ∨ q + n ≤ p

variable {V : Type*}

/-- A new object lies apart from those there are, and a write hits one of them. -/
inductive Step : Store V → Op V → Store V → Prop
  | make {o p n} : o p = none → (∀ q x, o q = some x → Separate p n q x.size) →
      Step o (.make p n) (Function.update o p (some ⟨n, fun _ => none⟩))
  | drop {o p x} : o p = some x → Step o (.drop p) (Function.update o p none)
  | write {o p i v x} : o p = some x → i < x.size →
      Step o (.write p i v) (Function.update o p (some { x with cells := Function.update x.cells i (some v) }))

variable {o o' : Store V} {p q i n : ℕ} {v : V} {x y : Object V} {m m' : ℕ → V}

/-- The objects lie apart, and each cell that was written is in the memory as it was written last. -/
structure Held (m : ℕ → V) (o : Store V) : Prop where
  apart : ∀ p q x y, o p = some x → o q = some y → p ≠ q → Separate p x.size q y.size
  cells : ∀ p x, o p = some x → ∀ i < x.size, ∀ v, x.cells i = some v → m (p + i) = v

/-- The memory `m'` agrees with `m` on the objects. -/
def Kept (m m' : ℕ → V) (o : Store V) : Prop := ∀ p x, o p = some x → ∀ i < x.size, m' (p + i) = m (p + i)

lemma Separate.symm {p m q n : ℕ} (h : Separate p m q n) : Separate q n p m := Or.symm h

lemma update_eq_some {a : Option (Object V)} (h : Function.update o p a q = some x) : q = p ∧ a = some x ∨ q ≠ p ∧ o q = some x := by
  by_cases hq : q = p
  · subst hq
    rw [Function.update_self] at h
    exact .inl ⟨rfl, h⟩
  · rw [Function.update_of_ne hq] at h
    exact .inr ⟨hq, h⟩

namespace Held

lemma empty (m : ℕ → V) : Held m (fun _ => none) := ⟨by simp, by simp⟩

lemma make (h : Held m o) (hk : Kept m m' o) (hnew : ∀ q x, o q = some x → Separate p n q x.size) :
    Held m' (Function.update o p (some ⟨n, fun _ => none⟩)) := by
  refine ⟨fun a b x y ha hb hab => ?_, fun a x ha i hi v hv => ?_⟩
  · rcases update_eq_some ha with ⟨rfl, hx⟩ | ⟨-, ha⟩
    · obtain rfl := Option.some.inj hx
      rcases update_eq_some hb with ⟨hba, -⟩ | ⟨-, hb⟩
      · exact absurd hba.symm hab
      · exact hnew b y hb
    · rcases update_eq_some hb with ⟨rfl, hy⟩ | ⟨-, hb⟩
      · obtain rfl := Option.some.inj hy
        exact (hnew a x ‹_›).symm
      · exact h.apart a b x y ha hb hab
  · rcases update_eq_some ha with ⟨rfl, hx⟩ | ⟨-, ha⟩
    · obtain rfl := Option.some.inj hx
      cases hv
    · rw [hk a x ha i hi]
      exact h.cells a x ha i hi v hv

lemma drop (h : Held m o) (hk : Kept m m' (Function.update o p none)) : Held m' (Function.update o p none) := by
  have hold : ∀ a x, Function.update o p none a = some x → o a = some x := fun a x ha => by
    rcases update_eq_some ha with ⟨-, hx⟩ | ⟨-, ha⟩
    · cases hx
    · exact ha
  refine ⟨fun a b x y ha hb => h.apart a b x y (hold a x ha) (hold b y hb), fun a x ha i hi v hv => ?_⟩
  rw [hk a x ha i hi]
  exact h.cells a x (hold a x ha) i hi v hv

lemma write (h : Held m o) (hp : o p = some x) (hi : i < x.size) :
    Held (Function.update m (p + i) v) (Function.update o p (some { x with cells := Function.update x.cells i (some v) })) := by
  -- sizes are what they were
  have hold : ∀ a y, Function.update o p (some { x with cells := Function.update x.cells i (some v) }) a = some y →
      ∃ z, o a = some z ∧ y.size = z.size ∧ (a ≠ p → y = z) := fun a y ha => by
    rcases update_eq_some ha with ⟨rfl, hy⟩ | ⟨hne, ha⟩
    · obtain rfl := Option.some.inj hy
      exact ⟨x, hp, rfl, fun hne => absurd rfl hne⟩
    · exact ⟨y, ha, rfl, fun _ => rfl⟩
  refine ⟨fun a b y z ha hb hab => ?_, fun a y ha j hj w hw => ?_⟩
  · obtain ⟨y', ha, hy, -⟩ := hold a y ha
    obtain ⟨z', hb, hz, -⟩ := hold b z hb
    rw [hy, hz]
    exact h.apart a b y' z' ha hb hab
  · rcases update_eq_some ha with ⟨rfl, hy⟩ | ⟨hne, ha⟩
    · obtain rfl := Option.some.inj hy
      change Function.update x.cells i (some v) j = some w at hw
      by_cases hji : j = i
      · subst hji
        rw [Function.update_self] at hw ⊢
        exact Option.some.inj hw
      · rw [Function.update_of_ne hji] at hw
        rw [Function.update_of_ne (by omega)]
        exact h.cells a x hp j hj w hw
    · have hsep := h.apart a p y x ha hp hne
      rw [Separate] at hsep
      rw [Function.update_of_ne (by omega)]
      exact h.cells a y ha j hj w hw

end Held

end WordOS.Lib.Objects
