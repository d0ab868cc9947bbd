import Mathlib.Data.Finset.Card
import Mathlib.Data.List.Nodup
import Mathlib.Data.List.Perm.Basic

/-! Trees given by the children of each node, and the order in which a recursion visits them. -/

namespace WordOS.Lib.Branching

variable {α β : Type*}

/-- The nodes with the number of edges that lead to them from `r`. -/
inductive Depth (kids : α → List α) (r : α) : ℕ → α → Prop
  | root : Depth kids r 0 r
  | step {n : ℕ} {x y : α} : Depth kids r n x → y ∈ kids x → Depth kids r (n + 1) y

def Reached (kids : α → List α) (r x : α) : Prop := ∃ n, Depth kids r n x

/-- No edge leads to the root, and one to every other node reached. -/
structure Tree (kids : α → List α) (r : α) : Prop where
  root : ∀ {x}, Reached kids r x → r ∉ kids x
  parent : ∀ {x y z}, Reached kids r x → Reached kids r y → z ∈ kids x → z ∈ kids y → x = y
  nodup : ∀ {x}, Reached kids r x → (kids x).Nodup

/-- The nodes from `a` down, `n` levels of them. -/
def preorder (kids : α → List α) : (n : ℕ) → (a : α) → List α
  | 0, _ => []
  | n + 1, a => a :: (kids a).flatMap (preorder kids n)

variable {kids : α → List α} {r x y z : α} {i j k n : ℕ}

lemma Reached.root : Reached kids r r := ⟨0, .root⟩

lemma Reached.step (h : Reached kids r x) (hy : y ∈ kids x) : Reached kids r y := by
  obtain ⟨n, hn⟩ := h
  exact ⟨n + 1, hn.step hy⟩

lemma Reached.induct {P : α → Prop} (h : Reached kids r x) (hr : P r) (hs : ∀ x y, Reached kids r x → P x → y ∈ kids x → P y) :
    P x := by
  obtain ⟨n, hn⟩ := h
  induction hn with
  | root => exact hr
  | step hx hy ih => exact hs _ _ ⟨_, hx⟩ ih hy

namespace Depth

lemma trans (hx : Depth kids r k x) (hy : Depth kids x i y) : Depth kids r (k + i) y := by
  induction hy with
  | root => exact hx
  | step _ hz ih => exact ih.step hz

lemma succ_iff : Depth kids x (i + 1) y ↔ ∃ z ∈ kids x, Depth kids z i y := by
  constructor
  · intro h
    induction i generalizing y with
    | zero =>
      cases h with
      | step hw hy =>
        cases hw
        exact ⟨y, hy, .root⟩
    | succ i ih =>
      cases h with
      | step hw hy =>
        obtain ⟨z, hz, hzw⟩ := ih hw
        exact ⟨z, hz, hzw.step hy⟩
  · rintro ⟨z, hz, h⟩
    rw [Nat.add_comm]
    exact (Depth.root.step hz).trans h

lemma ancestor (h : Depth kids r n x) (hi : i ≤ n) : ∃ y, Depth kids r i y := by
  induction h with
  | root =>
    obtain rfl := Nat.le_zero.mp hi
    exact ⟨r, .root⟩
  | step hx hy ih =>
    rcases Nat.eq_or_lt_of_le hi with rfl | hlt
    · exact ⟨_, hx.step hy⟩
    · exact ih (Nat.le_of_lt_succ hlt)

end Depth

/-- Parts that tell which element they belong to. -/
lemma nodup_flatMap_of_unique {l : List α} {f : α → List β} (hl : l.Nodup) (hf : ∀ a ∈ l, (f a).Nodup)
    (hone : ∀ a ∈ l, ∀ b ∈ l, ∀ x ∈ f a, x ∈ f b → a = b) : (l.flatMap f).Nodup := by
  refine List.nodup_flatMap.mpr ⟨hf, ?_⟩
  apply hl.imp_of_mem
  intro a b ha hb hne x hx hx'
  exact hne (hone a ha b hb x hx hx')

lemma mem_preorder : y ∈ preorder kids n x ↔ ∃ i < n, Depth kids x i y := by
  induction n generalizing x with
  | zero => exact iff_of_false (List.not_mem_nil) fun ⟨i, hi, _⟩ => Nat.not_lt_zero i hi
  | succ n ih =>
    simp only [preorder, List.mem_cons, List.mem_flatMap, ih]
    constructor
    · rintro (rfl | ⟨z, hz, i, hi, hy⟩)
      · exact ⟨0, Nat.succ_pos n, .root⟩
      · exact ⟨i + 1, Nat.succ_lt_succ hi, Depth.succ_iff.mpr ⟨z, hz, hy⟩⟩
    · rintro ⟨i, hi, hy⟩
      cases i with
      | zero =>
        cases hy
        exact Or.inl rfl
      | succ i =>
        obtain ⟨z, hz, hzy⟩ := Depth.succ_iff.mp hy
        exact Or.inr ⟨z, hz, i, Nat.lt_of_succ_lt_succ hi, hzy⟩

lemma flatMap_preorder (own : α → List β) : (preorder kids (n + 1) x).flatMap own =
    own x ++ (kids x).flatMap fun z => (preorder kids n z).flatMap own := by
  rw [preorder, List.flatMap_cons, List.flatMap_assoc]

namespace Tree

variable (h : Tree kids r)
include h

lemma depth_unique (hi : Depth kids r i x) (hj : Depth kids r j x) : i = j := by
  induction hi generalizing j with
  | root =>
    cases hj with
    | root => rfl
    | step hy hr => exact absurd hr (h.root ⟨_, hy⟩)
  | step hx hz ih =>
    cases hj with
    | root => exact absurd hz (h.root ⟨_, hx⟩)
    | step hy hz' =>
      obtain rfl := h.parent ⟨_, hx⟩ ⟨_, hy⟩ hz hz'
      exact congrArg Nat.succ (ih hy)

lemma top_unique (hx : Depth kids r k x) (hy : Depth kids r k y) (hxz : Depth kids x i z) (hyz : Depth kids y i z) : x = y := by
  induction i generalizing z with
  | zero =>
    cases hxz
    cases hyz
    rfl
  | succ i ih =>
    cases hxz with
    | step hv hz =>
      cases hyz with
      | step hw hz' =>
        obtain rfl := h.parent ⟨_, hx.trans hv⟩ ⟨_, hy.trans hw⟩ hz hz'
        exact ih hv hw

/-- There is an ancestor on each level, and no two levels have a node in common. -/
lemma depth_lt_card {s : Finset α} (hs : ∀ y, Reached kids r y → y ∈ s) (hx : Depth kids r n x) : n < s.card := by
  have hall : ∀ i, ∃ y, i ≤ n → Depth kids r i y := by
    intro i
    by_cases hi : i ≤ n
    · obtain ⟨y, hy⟩ := hx.ancestor hi
      exact ⟨y, fun _ => hy⟩
    · exact ⟨x, fun hle => absurd hle hi⟩
  choose f hf using hall
  have hle : ∀ i ∈ Finset.range (n + 1), i ≤ n := fun i hi => Nat.lt_succ_iff.mp (Finset.mem_range.mp hi)
  have hcard : (Finset.range (n + 1)).card ≤ s.card := by
    apply Finset.card_le_card_of_injOn f
    · intro i hi
      exact hs _ ⟨i, hf i (hle i hi)⟩
    · intro i hi j hj heq
      have hj' : Depth kids r j (f i) := heq ▸ hf j (hle j hj)
      exact h.depth_unique (hf i (hle i hi)) hj'
  rw [Finset.card_range] at hcard
  exact hcard

lemma preorder_nodup (hx : Depth kids r k x) (n : ℕ) : (preorder kids n x).Nodup := by
  induction n generalizing x k with
  | zero => exact List.nodup_nil
  | succ n ih =>
    have hroom : x ∉ (kids x).flatMap (preorder kids n) := by
      intro hmem
      obtain ⟨z, hz, hxz⟩ := List.mem_flatMap.mp hmem
      obtain ⟨i, -, hi⟩ := mem_preorder.mp hxz
      have hdeeper := h.depth_unique hx ((hx.step hz).trans hi)
      omega
    refine List.nodup_cons.mpr ⟨hroom, ?_⟩
    apply nodup_flatMap_of_unique (h.nodup ⟨k, hx⟩)
    · intro z hz
      exact ih (hx.step hz)
    · intro y hy z hz w hwy hwz
      obtain ⟨i, -, hi⟩ := mem_preorder.mp hwy
      obtain ⟨j, -, hj⟩ := mem_preorder.mp hwz
      have hlevel := h.depth_unique ((hx.step hy).trans hi) ((hx.step hz).trans hj)
      obtain rfl : i = j := by omega
      exact h.top_unique (hx.step hy) (hx.step hz) hi hj

lemma mem_preorder_root {s : Finset α} (hs : ∀ y, Reached kids r y → y ∈ s) (hn : s.card ≤ n) :
    x ∈ preorder kids n r ↔ Reached kids r x := by
  rw [mem_preorder]
  constructor
  · rintro ⟨i, -, hi⟩
    exact ⟨i, hi⟩
  · rintro ⟨i, hi⟩
    exact ⟨i, Nat.lt_of_lt_of_le (h.depth_lt_card hs hi) hn, hi⟩

end Tree

end WordOS.Lib.Branching
