import WordOS.Lib.Runs
import WordOS.Utils.ArrayList

/-! The array list is the list of the items added and not deleted. -/

namespace WordOS.Utils

open Machine Lib.Bytes Lib.Runs

inductive AlOp
  | add (item : ℕ → BitVec 8)
  | delete (i : ℕ)

def AlOp.onList (xs : List (ℕ → BitVec 8)) : AlOp → List (ℕ → BitVec 8)
  | .add item => xs ++ [item]
  | .delete i => xs.eraseIdx i

/-- The list stays at 32767 items at most, and an item that is deleted exists. -/
inductive AlStep {H : Type} (A : Allocator H) : ArrayList H → AlOp → ArrayList H → Prop
  | add {s item} : s.count < 32767 → AlStep A s (.add item) (alAddItem A s item)
  | delete {s i} : i < s.count → AlStep A s (.delete i) (alDeleteItem s i)

/-- The same with room for one more item, the most that the 16-bit fields can count. -/
inductive FieldStep {H : Type} (A : Allocator H) : ArrayList H → AlOp → ArrayList H → Prop
  | add {s item} : s.count < 2 ^ 15 → FieldStep A s (.add item) (alAddItem A s item)
  | delete {s i} : i < s.count → FieldStep A s (.delete i) (alDeleteItem s i)

lemma AlStep.field {H : Type} {A : Allocator H} {s t : ArrayList H} {op : AlOp} (h : AlStep A s op t) : FieldStep A s op t := by
  cases h with
  | add hlt => exact .add (by omega)
  | delete hi => exact .delete hi

variable {H : Type} {A : Allocator H} {s : ArrayList H} {xs : List (ℕ → BitVec 8)} {item : ℕ → BitVec 8} {m : Mem}
  {dt cap i k n p x : ℕ}

/-- The items of `xs`, in a block with room for `cap`. -/
structure Lays (A : Allocator H) (dt cap : ℕ) (s : ArrayList H) (xs : List (ℕ → BitVec 8)) : Prop where
  dt_lt : dt < 2 ^ 16
  dtSize : s.dtSize = dt
  count : s.count = xs.length
  maxCount : s.maxCount = cap
  le : xs.length ≤ cap
  power : ∃ j ≤ 15, cap = 2 ^ j
  room : cap * dt + SIZEOF_ARRAY_LIST ≤ A.size s.heap s.al
  fits : s.al + (cap * dt + SIZEOF_ARRAY_LIST) ≤ 2 ^ 32
  item : ∀ i (h : i < xs.length) k, k < dt → s.mem (s.al + DATA_OFFSET + i * dt + k) = xs[i] k

lemma fields_moved {s t : ArrayList H} (h : ∀ i < 8, t.mem (t.al + i) = s.mem (s.al + i)) :
    t.dtSize = s.dtSize ∧ t.count = s.count ∧ t.maxCount = s.maxCount := by
  refine ⟨read32_moved fun i hi => h i (by omega), read16_moved fun i hi => ?_, read16_moved fun i hi => ?_⟩
  · rw [Nat.add_assoc, Nat.add_assoc]
    exact h (4 + i) (by omega)
  · rw [Nat.add_assoc, Nat.add_assoc]
    exact h (6 + i) (by omega)

lemma setCount_fields : (s.setCount n).dtSize = s.dtSize ∧ (s.setCount n).count = n % 2 ^ 16 ∧
    (s.setCount n).maxCount = s.maxCount := by
  have hal : (s.setCount n).al = s.al := rfl
  rw [ArrayList.dtSize, ArrayList.count, ArrayList.maxCount, hal]
  refine ⟨read32_congr fun i hi => write16_of_outside ?_, read16_write16_self, read16_congr fun i hi => write16_of_outside ?_⟩
  · exact .inl (by omega)
  · exact .inr (by omega)

lemma setMaxCount_fields : (s.setMaxCount n).dtSize = s.dtSize ∧ (s.setMaxCount n).count = s.count ∧
    (s.setMaxCount n).maxCount = n % 2 ^ 16 := by
  have hal : (s.setMaxCount n).al = s.al := rfl
  rw [ArrayList.dtSize, ArrayList.count, ArrayList.maxCount, hal]
  refine ⟨read32_congr fun i hi => write16_of_outside ?_, read16_congr fun i hi => write16_of_outside ?_, read16_write16_self⟩
  · exact .inl (by omega)
  · exact .inl (by omega)

lemma setCount_mem (h : s.al + DATA_OFFSET ≤ x) : (s.setCount n).mem x = s.mem x := by
  rw [DATA_OFFSET] at h
  exact write16_of_outside (.inr (by omega))

lemma setMaxCount_mem (h : s.al + DATA_OFFSET ≤ x) : (s.setMaxCount n).mem x = s.mem x := by
  rw [DATA_OFFSET] at h
  exact write16_of_outside (.inr (by omega))

lemma created_fields (h : H) (m : Mem) (p dt : ℕ) :
    let s : ArrayList H := ⟨h, write32 (write16 (memset m p 0 (dt + SIZEOF_ARRAY_LIST)) (p + 6) 1) p dt, p⟩
    s.dtSize = dt % 2 ^ 32 ∧ s.count = 0 ∧ s.maxCount = 1 := by
  refine ⟨read32_write32_self, ?_, ?_⟩
  · refine read16_congr (m := fun _ => 0) fun i hi => ?_
    dsimp only
    rw [write32_of_outside (by omega), write16_of_outside (by omega), memset_inside (by omega)]
    rw [SIZEOF_ARRAY_LIST]
    omega
  · refine (read16_congr fun i hi => write32_of_outside ?_).trans (read16_write16_self (v := 1))
    dsimp only
    omega

lemma createArrayList_lays {h : H} (hdt : dt < 2 ^ 16) : Lays A dt 1 (createArrayList A h m dt) [] := by
  obtain ⟨hsize, hfits⟩ := A.kalloc_ok h m (dt + SIZEOF_ARRAY_LIST) (by rw [SIZEOF_ARRAY_LIST]; omega)
  obtain ⟨hdtSize, hcount, hmax⟩ := created_fields (A.kalloc h m (dt + SIZEOF_ARRAY_LIST)).2.1
    (A.kalloc h m (dt + SIZEOF_ARRAY_LIST)).2.2 (A.kalloc h m (dt + SIZEOF_ARRAY_LIST)).1 dt
  rw [Nat.mod_eq_of_lt (by omega)] at hdtSize
  exact ⟨hdt, hdtSize, hcount, hmax, Nat.zero_le 1, ⟨0, by decide, rfl⟩, by rwa [Nat.one_mul], by rwa [Nat.one_mul],
    fun i hi => absurd hi (Nat.not_lt_zero i)⟩

namespace Lays

lemma itemAddr (h : Lays A dt cap s xs) (hi : i ≤ cap) : s.itemAddr i = s.al + DATA_OFFSET + i * dt := by
  have hle : i * dt ≤ cap * dt := Nat.mul_le_mul_right dt hi
  have hfits := h.fits
  rw [SIZEOF_ARRAY_LIST] at hfits
  rw [ArrayList.itemAddr, h.dtSize, DATA_OFFSET, u32_eq (show i * dt < 2 ^ 32 by omega), u32_eq (by omega)]

lemma alGet (h : Lays A dt cap s xs) (hi : i ≤ xs.length) : alGet s i = s.al + DATA_OFFSET + i * dt := by
  rw [Utils.alGet, if_neg (by rw [h.count]; omega), h.itemAddr (hi.trans h.le)]

lemma grow (h : Lays A dt cap s xs) (hlt : cap < 2 ^ 15) : Lays A dt (cap * 2) (alGrow A s) xs := by
  obtain ⟨j, hj, hcap⟩ := h.power
  have hj' : j + 1 ≤ 15 := by
    rw [hcap] at hlt
    exact (Nat.pow_lt_pow_iff_right (by decide)).mp hlt
  have hcap2 : cap * 2 ≤ 2 ^ 15 := by
    rw [hcap, ← pow_succ]
    exact Nat.pow_le_pow_right (by decide) hj'
  have hdata : cap * 2 * dt ≤ 2 ^ 15 * (2 ^ 16 - 1) := Nat.mul_le_mul hcap2 (by have := h.dt_lt; omega)
  have hn : u32 (s.maxCount * 2 * s.dtSize + SIZEOF_ARRAY_LIST) = cap * 2 * dt + SIZEOF_ARRAY_LIST := by
    rw [h.maxCount, h.dtSize]
    exact u32_eq (by rw [SIZEOF_ARRAY_LIST]; omega)
  obtain ⟨hsize, hfits⟩ := A.rekalloc_ok s.heap s.mem s.al (cap * 2 * dt + SIZEOF_ARRAY_LIST) (by rw [SIZEOF_ARRAY_LIST]; omega)
  have hkeeps := A.rekalloc_keeps s.heap s.mem s.al (cap * 2 * dt + SIZEOF_ARRAY_LIST)
  rw [alGrow, hn, h.maxCount]
  generalize A.rekalloc s.heap s.mem s.al (cap * 2 * dt + SIZEOF_ARRAY_LIST) = r at *
  obtain ⟨newAl, hp, m⟩ := r
  dsimp only at hsize hfits hkeeps ⊢
  have hroom := h.room
  have hle : cap * dt ≤ cap * 2 * dt := Nat.mul_le_mul_right dt (by omega)
  have hold : ∀ i < cap * dt + SIZEOF_ARRAY_LIST, m (newAl + i) = s.mem (s.al + i) := fun i hi =>
    hkeeps i (by omega) (by omega)
  obtain ⟨hdt, hcount, -⟩ := fields_moved (s := s) (t := ⟨hp, m, newAl⟩) fun i hi => hold i (by rw [SIZEOF_ARRAY_LIST]; omega)
  obtain ⟨hdt', hcount', hmax'⟩ := setMaxCount_fields (s := (⟨hp, m, newAl⟩ : ArrayList H)) (n := cap * 2)
  refine ⟨h.dt_lt, hdt'.trans (hdt.trans h.dtSize), hcount'.trans (hcount.trans h.count), ?_, ?_, ⟨j + 1, hj', ?_⟩, hsize, hfits, ?_⟩
  · exact hmax'.trans (Nat.mod_eq_of_lt (by omega))
  · exact h.le.trans (by omega)
  · rw [hcap, pow_succ]
  · intro i hi k hk
    have hi' : i * dt + k < cap * dt := by
      have : (i + 1) * dt ≤ cap * dt := Nat.mul_le_mul_right dt (by have := h.le; omega)
      rw [Nat.succ_mul] at this
      omega
    refine (setMaxCount_mem ?_).trans ?_
    · change newAl + DATA_OFFSET ≤ newAl + DATA_OFFSET + i * dt + k
      omega
    · have := hold (DATA_OFFSET + i * dt + k) (by rw [DATA_OFFSET, SIZEOF_ARRAY_LIST]; omega)
      simp only [← Nat.add_assoc] at this
      exact this.trans (h.item i hi k hk)

lemma store (h : Lays A dt cap s xs) (hlt : xs.length < cap) :
    let t : ArrayList H := { s with mem := copyIn s.mem (s.itemAddr s.count) item s.dtSize }
    Lays A dt cap (t.setCount (t.count + 1)) (xs ++ [item]) := by
  have haddr : s.itemAddr s.count = s.al + DATA_OFFSET + xs.length * dt := by rw [h.count, h.itemAddr hlt.le]
  rw [haddr, h.dtSize]
  intro t
  have hout : ∀ x < s.al + DATA_OFFSET + xs.length * dt, t.mem x = s.mem x := fun x hx => copyIn_of_outside (.inl hx)
  obtain ⟨hdt, hcount, hmax⟩ := fields_moved (s := s) (t := t) fun i hi => hout (s.al + i) (by rw [DATA_OFFSET]; omega)
  obtain ⟨hdt', hcount', hmax'⟩ := setCount_fields (s := t) (n := t.count + 1)
  have hcap : cap ≤ 2 ^ 15 := by
    obtain ⟨j, hj, rfl⟩ := h.power
    exact Nat.pow_le_pow_right (by decide) hj
  refine ⟨h.dt_lt, hdt'.trans (hdt.trans h.dtSize), ?_, hmax'.trans (hmax.trans h.maxCount), ?_, h.power, h.room, h.fits, ?_⟩
  · rw [hcount', hcount, h.count, List.length_append, List.length_singleton]
    exact Nat.mod_eq_of_lt (by omega)
  · rw [List.length_append, List.length_singleton]
    exact hlt
  · intro i hi k hk
    refine (setCount_mem ?_).trans ?_
    · change s.al + DATA_OFFSET ≤ s.al + DATA_OFFSET + i * dt + k
      omega
    · change t.mem (s.al + DATA_OFFSET + i * dt + k) = _
      rw [List.length_append, List.length_singleton] at hi
      rcases Nat.lt_succ_iff_lt_or_eq.mp hi with hi | rfl
      · have hle : (i + 1) * dt ≤ xs.length * dt := Nat.mul_le_mul_right dt hi
        rw [Nat.succ_mul] at hle
        rw [hout _ (by omega), h.item i hi k hk, List.getElem_append_left hi]
      · rw [List.getElem_concat_length rfl]
        exact copyIn_inside hk

lemma add (h : Lays A dt cap s xs) (hlt : xs.length < 2 ^ 15) (item : ℕ → BitVec 8) :
    ∃ cap', Lays A dt cap' (alAddItem A s item) (xs ++ [item]) := by
  rw [alAddItem]
  by_cases hfull : s.count = s.maxCount
  · rw [if_pos hfull]
    rw [h.count, h.maxCount] at hfull
    have hg := h.grow (by omega)
    have hpos : 0 < cap := by
      obtain ⟨j, -, rfl⟩ := h.power
      exact Nat.two_pow_pos j
    exact ⟨cap * 2, hg.store (by omega)⟩
  · rw [if_neg hfull]
    rw [h.count, h.maxCount] at hfull
    exact ⟨cap, h.store (lt_of_le_of_ne h.le hfull)⟩

end Lays

lemma shiftItems_eq (dt n p : ℕ) (m : Mem) : (shiftItems dt n p m).1 = p + n * dt ∧
    (∀ x, x < p ∨ p + n * dt ≤ x → (shiftItems dt n p m).2 x = m x) ∧
    ∀ x, p ≤ x → x < p + n * dt → (shiftItems dt n p m).2 x = m (x + dt) := by
  induction n generalizing p m with
  | zero => exact ⟨by simp [shiftItems], fun _ _ => rfl, fun x hx hx' => absurd hx' (by omega)⟩
  | succ n ih =>
    obtain ⟨hstart, hout, hin⟩ := ih (p := p + dt) (m := memcpy m p (p + dt) dt)
    have hmul : (n + 1) * dt = dt + n * dt := by rw [Nat.succ_mul, Nat.add_comm]
    rw [shiftItems, hmul]
    refine ⟨hstart.trans (by omega), fun x hx => ?_, fun x hx hx' => ?_⟩
    · rw [hout x (by omega), memcpy_of_outside (by omega)]
    · by_cases hfirst : x < p + dt
      · obtain ⟨i, rfl⟩ := Nat.exists_eq_add_of_le hx
        rw [hout _ (.inl hfirst), memcpy_copied (.inl (Nat.le_add_right p dt)) (by omega)]
        congr 1
        omega
      · rw [hin x (by omega) (by omega), memcpy_of_outside (.inr (by omega))]

namespace Lays

lemma delete (h : Lays A dt cap s xs) (hi : i < xs.length) : Lays A dt cap (alDeleteItem s i) (xs.eraseIdx i) := by
  have hlen : (xs.eraseIdx i).length = xs.length - 1 := List.length_eraseIdx_of_lt hi
  obtain ⟨hstart, hout, hin⟩ := shiftItems_eq dt (xs.length - 1 - i) (s.al + DATA_OFFSET + i * dt) s.mem
  have hlast : s.al + DATA_OFFSET + i * dt + (xs.length - 1 - i) * dt = s.al + DATA_OFFSET + (xs.length - 1) * dt := by
    rw [Nat.add_assoc, ← Nat.add_mul]
    congr 2
    omega
  rw [hlast] at hstart hout hin
  have hlt : xs.length < 2 ^ 16 := h.count ▸ read16_lt
  have hn : ((xs.length : ℤ) - 1 - int32 i).toNat = xs.length - 1 - i := by
    rw [int32_eq (by omega)]
    omega
  rw [alDeleteItem, h.dtSize, h.count, hn, h.alGet hi.le]
  generalize shiftItems dt (xs.length - 1 - i) (s.al + DATA_OFFSET + i * dt) s.mem = r at *
  obtain ⟨indexStart, m⟩ := r
  dsimp only at hstart hout hin ⊢
  set t : ArrayList H := { s with mem := memset m indexStart 0 dt } with ht
  have hmem : ∀ x < s.al + DATA_OFFSET + (xs.length - 1) * dt, t.mem x = m x := fun x hx =>
    memset_of_outside (.inl (hstart ▸ hx))
  obtain ⟨hdt, hcount, hmax⟩ := fields_moved (s := s) (t := t) fun i hi => by
    rw [show t.al = s.al from rfl, hmem _ (by rw [DATA_OFFSET]; omega)]
    exact hout _ (.inl (by rw [DATA_OFFSET]; omega))
  obtain ⟨hdt', hcount', hmax'⟩ := setCount_fields (s := t) (n := t.count + 2 ^ 16 - 1)
  refine ⟨h.dt_lt, hdt'.trans (hdt.trans h.dtSize), ?_, hmax'.trans (hmax.trans h.maxCount), ?_, h.power, h.room, h.fits, ?_⟩
  · rw [hcount', hcount, h.count, hlen]
    omega
  · have := h.le
    omega
  · intro j hj k hk
    rw [hlen] at hj
    have hle : (j + 1) * dt ≤ (xs.length - 1) * dt := Nat.mul_le_mul_right dt (by omega)
    rw [Nat.succ_mul] at hle
    refine (setCount_mem ?_).trans ?_
    · change s.al + DATA_OFFSET ≤ s.al + DATA_OFFSET + j * dt + k
      omega
    · change t.mem (s.al + DATA_OFFSET + j * dt + k) = _
      rw [hmem _ (by omega), List.getElem_eraseIdx]
      by_cases hji : j < i
      · rw [dif_pos hji]
        have hle' : (j + 1) * dt ≤ i * dt := Nat.mul_le_mul_right dt hji
        rw [Nat.succ_mul] at hle'
        exact (hout _ (.inl (by omega))).trans (h.item j (by omega) k hk)
      · rw [dif_neg hji]
        have hle' : i * dt ≤ j * dt := Nat.mul_le_mul_right dt (by omega)
        rw [hin _ (by omega) (by omega), ← h.item (j + 1) (by omega) k hk, Nat.succ_mul]
        congr 1
        omega

end Lays

/-- The array list holds the items of `xs`, of `dt` bytes each. -/
def Holds (dt : ℕ) (s : ArrayList H) (xs : List (ℕ → BitVec 8)) : Prop :=
  s.count = xs.length ∧ ∀ i (h : i < xs.length) k, k < dt → s.mem (alGet s i + k) = xs[i] k

lemma Lays.step {op : AlOp} {t : ArrayList H} (h : Lays A dt cap s xs) (hs : FieldStep A s op t) :
    ∃ cap', Lays A dt cap' t (op.onList xs) := by
  cases hs with
  | add hlt =>
    rw [h.count] at hlt
    exact h.add (by omega) _
  | delete hi => exact ⟨cap, h.delete (h.count ▸ hi)⟩

lemma Lays.holds (h : Lays A dt cap s xs) : Holds dt s xs :=
  ⟨h.count, fun i hi k hk => by rw [h.alGet hi.le]; exact h.item i hi k hk⟩

lemma run_lays {h₀ : H} {m : Mem} {ops : List AlOp} (hdt : dt < 2 ^ 16)
    (hrun : Run (FieldStep A) (createArrayList A h₀ m dt) ops s) : ∃ cap, Lays A dt cap s (ops.foldl AlOp.onList []) := by
  induction hrun with
  | nil => exact ⟨1, createArrayList_lays hdt⟩
  | snoc _ hs ih =>
    obtain ⟨cap, hl⟩ := ih
    rw [List.foldl_append]
    exact hl.step hs

/-- After every sequence of additions and deletions the array list holds the items of the list. -/
theorem run_holds {h₀ : H} {m : Mem} {ops : List AlOp} (hdt : dt < 2 ^ 16)
    (hrun : Run (AlStep A) (createArrayList A h₀ m dt) ops s) : Holds dt s (ops.foldl AlOp.onList []) := by
  obtain ⟨cap, hl⟩ := run_lays hdt (hrun.mono fun _ _ _ => AlStep.field)
  exact hl.holds

/-- One block at 0x1000, to which every call moves what lies at the pointer. -/
def oneBlock : Allocator Unit where
  size _ _ := 2 ^ 31
  kalloc h m _ := (0x1000, h, m)
  rekalloc h m p _ := (0x1000, h, fun x => if 0x1000 ≤ x then m (p + (x - 0x1000)) else m x)
  kalloc_ok _ _ n hn := ⟨hn.le, by dsimp only; omega⟩
  rekalloc_ok _ _ _ n hn := ⟨hn.le, by dsimp only; omega⟩
  rekalloc_keeps h m p n i _ _ := by
    dsimp only
    rw [if_pos (Nat.le_add_right _ _), Nat.add_sub_cancel_left]

theorem run_holds_three : ∃ s, Run (AlStep oneBlock) (createArrayList oneBlock () (fun _ => 0xFF) 2)
    [.add fun _ => 1, .add fun _ => 2, .add fun _ => 3, .delete 0] s ∧ Holds 2 s [fun _ => 2, fun _ => 3] := by
  have hrun : Run (AlStep oneBlock) (createArrayList oneBlock () (fun _ => 0xFF) 2)
      [.add fun _ => 1, .add fun _ => 2, .add fun _ => 3, .delete 0] _ :=
    (((Run.single (.add (by decide))).snoc (.add (by decide))).snoc (.add (by decide))).snoc
      (.delete (by decide))
  exact ⟨_, hrun, run_holds (by decide) hrun⟩

end WordOS.Utils
