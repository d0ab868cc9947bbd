import Mathlib.Data.List.Induction
import WordOS.Utils.ArrayListRuns

/-! Indices at the end of an array list, and its growth up to the width of its fields. -/

namespace WordOS.Utils

open Machine Lib.Bytes Lib.Runs

variable {H : Type} {A : Allocator H} {s : ArrayList H} {xs : List (ℕ → BitVec 8)} {item : ℕ → BitVec 8} {dt cap index n : ℕ}

/-- `al_delete_item` with the pointer it gets from `al_get`, which may be NULL. -/
def alDeleteAt (s : ArrayList H) (index : ℕ) : Exec (ArrayList H) :=
  if alGet s index = 0 ∧ s.dtSize ≠ 0 then .error .fault else .ok (alDeleteItem s index)

/-- `al_get` knows which items there are, and `al_delete_item` does nothing for the others. -/
structure ChecksIndex (s : ArrayList H) (index : ℕ) : Prop where
  get : alGet s index ≠ 0 ↔ index < s.count
  delete : s.count ≤ index → ∃ t, alDeleteAt s index = .ok t ∧ t.count = s.count ∧
    ∀ i < s.count, ∀ k < s.dtSize, t.mem (alGet t i + k) = s.mem (alGet s i + k)

lemma memset_none {m : Mem} {p : ℕ} : memset m p 0 0 = m := by
  funext x
  exact memset_of_outside (by omega)

lemma shiftItems_none {p : ℕ} {m : Mem} : shiftItems 0 n p m = (p, m) := by
  obtain ⟨hstart, hout, -⟩ := shiftItems_eq 0 n p m
  refine Prod.ext hstart (funext fun x => hout x ?_)
  rw [Nat.mul_zero]
  omega

lemma alDeleteItem_none (h : s.dtSize = 0) : (alDeleteItem s index).count = (s.count + 2 ^ 16 - 1) % 2 ^ 16 := by
  rw [alDeleteItem, h, shiftItems_none]
  dsimp only
  rw [memset_none]
  exact setCount_fields.2.1

/-- Whatever the list, an index past its items is not refused. -/
lemma not_checksIndex (hi : s.count ≤ index) : ¬ ChecksIndex s index := by
  intro h
  have hnull : alGet s index = 0 := not_not.mp (h.get.not.mpr (Nat.not_lt.mpr hi))
  obtain ⟨t, ht, hcount, -⟩ := h.delete hi
  by_cases hdt : s.dtSize = 0
  · rw [alDeleteAt, if_neg fun hc => hc.2 hdt] at ht
    obtain rfl := Except.ok.inj ht
    have hlt : s.count < 2 ^ 16 := read16_lt
    rw [alDeleteItem_none hdt] at hcount
    omega
  · rw [alDeleteAt, if_pos ⟨hnull, hdt⟩] at ht
    cases ht

theorem run_checks_iff {h₀ : H} {m : Mem} {ops : List AlOp} (hdt : dt < 2 ^ 16)
    (hrun : Run (FieldStep A) (createArrayList A h₀ m dt) ops s) : ChecksIndex s index ↔ index < s.count := by
  refine ⟨fun h => by_contra fun hi => not_checksIndex (Nat.le_of_not_lt hi) h, fun hi => ⟨⟨fun _ => hi, fun _ => ?_⟩, fun hle => ?_⟩⟩
  · obtain ⟨cap, hl⟩ := run_lays hdt hrun
    rw [hl.count] at hi
    rw [hl.alGet hi.le, DATA_OFFSET]
    omega
  · exact absurd hi (Nat.not_lt.mpr hle)

def oneItem : ArrayList Unit := alAddItem oneBlock (createArrayList oneBlock () (fun _ => 0xFF) 2) fun _ => 1

lemma oneItem_run : Run (FieldStep oneBlock) (createArrayList oneBlock () (fun _ => 0xFF) 2) [.add fun _ => 1] oneItem :=
  Run.single (.add (by decide))

theorem run_checks_iff_first : Run (FieldStep oneBlock) (createArrayList oneBlock () (fun _ => 0xFF) 2) [.add fun _ => 1] oneItem ∧
    ChecksIndex oneItem 0 :=
  ⟨oneItem_run, (run_checks_iff (by decide) oneItem_run).mpr (by decide)⟩

/-- The index behind the only item has an address, and its deletion takes the count down; the next index is followed to NULL. -/
theorem run_checks_past_end : Run (FieldStep oneBlock) (createArrayList oneBlock () (fun _ => 0xFF) 2) [.add fun _ => 1] oneItem ∧
    oneItem.count = 1 ∧ alGet oneItem 1 ≠ 0 ∧ (alDeleteAt oneItem 1).map ArrayList.count = .ok 0 ∧
    (alDeleteAt oneItem 2).map ArrayList.count = .error .fault ∧ ¬ ChecksIndex oneItem 1 := by
  refine ⟨oneItem_run, by decide, by decide, by decide, by decide, not_checksIndex (by decide)⟩

/-- A call of `rekalloc` for `n` bytes succeeds. -/
def Allocator.Serves (A : Allocator H) (n : ℕ) : Prop :=
  ∀ h m p, n ≤ A.size (A.rekalloc h m p n).2.1 (A.rekalloc h m p n).1 ∧ (A.rekalloc h m p n).1 + n ≤ 2 ^ 32

def addItems (A : Allocator H) (s : ArrayList H) (items : List (ℕ → BitVec 8)) : ArrayList H := items.foldl (alAddItem A) s

/-- What a call of `al_add_item` is to leave: `t`, from `s`. -/
structure Capacity (A : Allocator H) (s t : ArrayList H) : Prop where
  le : t.count ≤ t.maxCount
  room : DATA_OFFSET + t.maxCount * t.dtSize ≤ A.size t.heap t.al
  grown : t.count = s.count + 1

lemma Lays.capacity (h : Lays A dt cap s xs) {t : ArrayList H} {cap' : ℕ} (ht : Lays A dt cap' t (xs ++ [item])) :
    Capacity A s t := by
  refine ⟨?_, ?_, ?_⟩
  · rw [ht.count, ht.maxCount]
    exact ht.le
  · have hroom := ht.room
    rw [SIZEOF_ARRAY_LIST] at hroom
    rw [ht.maxCount, ht.dtSize, DATA_OFFSET]
    omega
  · rw [ht.count, h.count, List.length_append, List.length_singleton]

lemma addItems_lays (hdt : dt < 2 ^ 16) (h : H) (m : Mem) {items : List (ℕ → BitVec 8)} (hn : items.length ≤ 2 ^ 15) :
    ∃ cap, Lays A dt cap (addItems A (createArrayList A h m dt) items) items := by
  induction items using List.reverseRecOn with
  | nil => exact ⟨1, createArrayList_lays hdt⟩
  | append_singleton items item ih =>
    rw [List.length_append, List.length_singleton] at hn
    obtain ⟨cap, hl⟩ := ih (by omega)
    rw [addItems, List.foldl_append]
    exact hl.add (by omega) item

lemma Lays.wraps (h : Lays A dt cap s xs) (hfull : xs.length = 2 ^ 15) (hserve : A.Serves (2 ^ 16 * dt + SIZEOF_ARRAY_LIST))
    (item : ℕ → BitVec 8) :
    (alAddItem A s item).maxCount = 0 ∧ (alAddItem A s item).count = 2 ^ 15 + 1 := by
  have hcap : cap = 2 ^ 15 := by
    obtain ⟨j, hj, rfl⟩ := h.power
    exact le_antisymm (Nat.pow_le_pow_right (by decide) hj) (hfull ▸ h.le)
  have hdt := h.dt_lt
  have hn : u32 (s.maxCount * 2 * s.dtSize + SIZEOF_ARRAY_LIST) = 2 ^ 16 * dt + SIZEOF_ARRAY_LIST := by
    rw [h.maxCount, h.dtSize, hcap]
    exact u32_eq (by rw [SIZEOF_ARRAY_LIST]; omega)
  obtain ⟨-, hfits⟩ := hserve s.heap s.mem s.al
  have hkeeps := A.rekalloc_keeps s.heap s.mem s.al (2 ^ 16 * dt + SIZEOF_ARRAY_LIST)
  rw [alAddItem, if_pos (by rw [h.count, h.maxCount, hfull, hcap]), alGrow, hn, h.maxCount, hcap]
  generalize A.rekalloc s.heap s.mem s.al (2 ^ 16 * dt + SIZEOF_ARRAY_LIST) = r at *
  obtain ⟨newAl, hp, m⟩ := r
  dsimp only at hfits hkeeps ⊢
  have hroom := h.room
  rw [SIZEOF_ARRAY_LIST] at hfits hroom hkeeps
  obtain ⟨hdt₁, hcount₁, -⟩ := fields_moved (s := s) (t := ⟨hp, m, newAl⟩) fun i hi => hkeeps i (by omega) (by omega)
  obtain ⟨hdt₂, hcount₂, hmax₂⟩ := setMaxCount_fields (s := (⟨hp, m, newAl⟩ : ArrayList H)) (n := 2 ^ 15 * 2)
  set t := (⟨hp, m, newAl⟩ : ArrayList H).setMaxCount (2 ^ 15 * 2) with ht
  have hal : t.al = newAl := rfl
  have htdt : t.dtSize = dt := hdt₂.trans (hdt₁.trans h.dtSize)
  have htcount : t.count = 2 ^ 15 := hcount₂.trans (hcount₁.trans (h.count.trans hfull))
  -- the new item lies behind the fields
  have haddr : t.itemAddr t.count = newAl + DATA_OFFSET + 2 ^ 15 * dt := by
    rw [ArrayList.itemAddr, htcount, htdt, hal, DATA_OFFSET, u32_eq (show 2 ^ 15 * dt < 2 ^ 32 by omega), u32_eq (by omega)]
  rw [haddr, htdt]
  set u : ArrayList H := { t with mem := copyIn t.mem (newAl + DATA_OFFSET + 2 ^ 15 * dt) item dt } with hu
  obtain ⟨-, hcount₃, hmax₃⟩ := fields_moved (s := t) (t := u) fun i hi =>
    copyIn_of_outside (.inl (show t.al + i < newAl + DATA_OFFSET + 2 ^ 15 * dt by rw [hal, DATA_OFFSET]; omega))
  obtain ⟨-, hcount₄, hmax₄⟩ := setCount_fields (s := u) (n := u.count + 1)
  rw [hcount₄, hmax₄, hcount₃, hmax₃, htcount, hmax₂]
  exact ⟨by norm_num, by norm_num⟩

lemma addItems_take {items : List (ℕ → BitVec 8)} (hn : n < items.length) :
    addItems A s (items.take (n + 1)) = alAddItem A (addItems A s (items.take n)) items[n] := by
  rw [List.take_succ_eq_append_getElem hn, addItems, List.foldl_append]
  rfl

lemma not_capacity {h₀ : H} {m : Mem} {items : List (ℕ → BitVec 8)} (hdt : dt < 2 ^ 16)
    (hserve : A.Serves (2 ^ 16 * dt + SIZEOF_ARRAY_LIST)) (hn : 2 ^ 15 < items.length) :
    ¬ Capacity A (addItems A (createArrayList A h₀ m dt) (items.take (2 ^ 15)))
      (addItems A (createArrayList A h₀ m dt) (items.take (2 ^ 15 + 1))) := by
  have hlen : (items.take (2 ^ 15)).length = 2 ^ 15 := by
    rw [List.length_take]
    exact min_eq_left hn.le
  obtain ⟨cap, hl⟩ := addItems_lays (A := A) hdt h₀ m hlen.le
  obtain ⟨hmax, hcount⟩ := hl.wraps hlen hserve items[2 ^ 15]
  intro h
  have hle := h.le
  rw [addItems_take hn, hmax, hcount] at hle
  exact absurd hle (by norm_num)

/-- The fields of an array list hold as long as no more than 32768 items are added. -/
theorem addItems_capacity_iff {h₀ : H} {m : Mem} {items : List (ℕ → BitVec 8)} (hdt : dt < 2 ^ 16)
    (hserve : A.Serves (2 ^ 16 * dt + SIZEOF_ARRAY_LIST)) :
    (∀ n < items.length, Capacity A (addItems A (createArrayList A h₀ m dt) (items.take n))
      (addItems A (createArrayList A h₀ m dt) (items.take (n + 1)))) ↔ items.length ≤ 2 ^ 15 := by
  constructor
  · intro h
    by_contra hn
    exact not_capacity hdt hserve (Nat.lt_of_not_le hn) (h _ (Nat.lt_of_not_le hn))
  · intro hle n hn
    have hlen : (items.take n).length = n := by
      rw [List.length_take]
      exact min_eq_left hn.le
    obtain ⟨cap, hl⟩ := addItems_lays (A := A) hdt h₀ m (show (items.take n).length ≤ 2 ^ 15 by omega)
    obtain ⟨cap', hl'⟩ := hl.add (show (items.take n).length < 2 ^ 15 by omega) items[n]
    rw [addItems_take hn]
    exact hl.capacity hl'

lemma oneBlock_serves : oneBlock.Serves (2 ^ 16 * 4 + SIZEOF_ARRAY_LIST) := fun h m p =>
  oneBlock.rekalloc_ok h m p _ (by rw [SIZEOF_ARRAY_LIST]; norm_num)

theorem addItems_capacity_iff_two : oneBlock.Serves (2 ^ 16 * 4 + SIZEOF_ARRAY_LIST) ∧
    ∀ n < 2, Capacity oneBlock (addItems oneBlock (createArrayList oneBlock () (fun _ => 0xFF) 4) ((List.replicate 2 fun _ => 1).take n))
      (addItems oneBlock (createArrayList oneBlock () (fun _ => 0xFF) 4) ((List.replicate 2 fun _ => 1).take (n + 1))) := by
  have hlen : (List.replicate 2 fun _ : ℕ => (1 : BitVec 8)).length ≤ 2 ^ 15 := by
    rw [List.length_replicate]
    norm_num
  exact ⟨oneBlock_serves, fun n hn => (addItems_capacity_iff (by norm_num) oneBlock_serves).mpr hlen n hn⟩

/-- The 32769th item finds no room in a list of items of four bytes. -/
theorem addItems_outgrows : oneBlock.Serves (2 ^ 16 * 4 + SIZEOF_ARRAY_LIST) ∧
    ¬ Capacity oneBlock
      (addItems oneBlock (createArrayList oneBlock () (fun _ => 0xFF) 4) ((List.replicate (2 ^ 15 + 1) fun _ => 1).take (2 ^ 15)))
      (addItems oneBlock (createArrayList oneBlock () (fun _ => 0xFF) 4) ((List.replicate (2 ^ 15 + 1) fun _ => 1).take (2 ^ 15 + 1))) := by
  refine ⟨oneBlock_serves, not_capacity (by norm_num) oneBlock_serves ?_⟩
  rw [List.length_replicate]
  exact Nat.lt_succ_self _

end WordOS.Utils
