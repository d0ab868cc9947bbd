import WordOS.Memory.Strings
import WordOS.Multiboot.Rsdp

/-! `cache_sdt_by_signature`: the tables that the root table lists are looked at through identity mappings. -/

namespace WordOS.Acpi

open Machine Memory Multiboot Lib.Bytes

def InPages (pages : List ℕ) (x : ℕ) : Prop := x / 4096 ∈ pages

instance (pages : List ℕ) : DecidablePred (InPages pages) := fun x => inferInstanceAs (Decidable (x / 4096 ∈ pages))

/-- `strcmp(signature, potential->Signature, 4)` from index `i` on, with `n` characters to go. -/
def strcmpAt (m : Mem) (s : Sdts) (signature : ℕ → UInt8) (potential : ℕ) : (n : ℕ) → (i : ℕ) → Exec Bool
  | 0, _ => .ok true
  | n + 1, i => do
    let ch ← loadByte (InPages s.mapped) m (potential + i)
    if (signature i).toNat ≠ ch then return false
    strcmpAt m s signature potential n (i + 1)

/-- The loop of `cache_sdt_by_signature`, from entry `i` on with `n` entries to go. -/
def findSdt (m : Mem) (signature : ℕ → UInt8) : (n : ℕ) → (i : ℕ) → (s : Sdts) → Exec (Sdts × Option ℕ)
  | 0, _, s => .ok (s, none)
  | n + 1, i, s => do
    let potential ← loadWord (InPages s.mapped) m (s.rsdtStore + SDT_HEADER + 4 * i)
    let s ← s.identityMap (pgrounddown potential)
    if ← strcmpAt m s signature potential 4 0 then return (s, some potential)
    findSdt m signature n (i + 1) s

/-- `(Length - sizeof(struct ACPISDTHeader)) / 4` -/
def entriesOf (length : ℕ) : ℕ := u32 (length + 2 ^ 32 - SDT_HEADER) / 4

/-- The bytes of the table are copied to the heap. -/
def cacheSdtBySignature (m : Mem) (s : Sdts) (signature : ℕ → UInt8) : Exec (Sdts × List ℕ) := do
  let length ← loadWord (InPages s.mapped) m (s.rsdtStore + 4)
  let (s, found) ← findSdt m signature (entriesOf length) 0 s
  match found with
  | none => throw (.panic "Signature not found in ACPI tables\n")
  | some found =>
    let length ← loadWord (InPages s.mapped) m (found + 4)
    let store ← loadBytes (InPages s.mapped) m found length
    return (s, store)

def cacheTables (m : Mem) (signatures : List (ℕ → UInt8)) (s : Sdts) : Exec Sdts :=
  signatures.foldlM (fun s signature => do return (← cacheSdtBySignature m s signature).1) s

section

variable (m : Mem) (rsdt : ℕ)

/-- The address of the `i`th listed table. -/
def entryOf (i : ℕ) : ℕ := wordAt m (rsdt + SDT_HEADER + 4 * i)

def Named (signature : ℕ → UInt8) (a : ℕ) : Prop := ∀ c < 4, (signature c).toNat = byteAt m (a + c)

/-- The search comes to the `i`th listed table. -/
def Looked (signature : ℕ → UInt8) (i : ℕ) : Prop :=
  i < entriesOf (sdtLength m rsdt) ∧ ∀ j < i, ¬ Named m signature (entryOf m rsdt j)

/-- `pages`, and the pages in which the first `i` listed tables start. -/
def startPages (pages : List ℕ) : (i : ℕ) → List ℕ
  | 0 => pages
  | i + 1 => entryOf m rsdt i / 4096 :: startPages pages i

/-- The bytes that are read of the list and of the signatures are in the page of the root table or where a
listed table starts. -/
structure LookCovered (signature : ℕ → UInt8) (pages : List ℕ) (i : ℕ) : Prop where
  entry : Within (InPages (startPages m rsdt pages i)) (rsdt + SDT_HEADER + 4 * i) 4
  signature : ∀ c < 4, (∀ d < c, (signature d).toNat = byteAt m (entryOf m rsdt i + d)) →
    InPages (startPages m rsdt pages (i + 1)) (u32 (entryOf m rsdt i + c))

structure CallCovered (signature : ℕ → UInt8) (pages : List ℕ) : Prop where
  length : Within (InPages pages) (rsdt + 4) 4
  looks : ∀ i, Looked m rsdt signature i → LookCovered m rsdt signature pages i
  table : ∀ i, Looked m rsdt signature i → Named m signature (entryOf m rsdt i) →
    Within (InPages (startPages m rsdt pages (i + 1))) (entryOf m rsdt i + 4) 4 ∧
      Within (InPages (startPages m rsdt pages (i + 1))) (entryOf m rsdt i) (sdtLength m (entryOf m rsdt i))

/-- So it is in all calls, where each finds its table. -/
def RunCovered : (signatures : List (ℕ → UInt8)) → (pages : List ℕ) → Prop
  | [], _ => True
  | signature :: signatures, pages => CallCovered m rsdt signature pages ∧
    ∀ i, Looked m rsdt signature i → Named m signature (entryOf m rsdt i) →
      RunCovered signatures (startPages m rsdt pages (i + 1))

/-- The pages that `init_rsdt_v1` maps. -/
def rsdtPages : List ℕ := (if pgroundup rsdt < u32 (sdtLength m rsdt + rsdt) then [0] else []) ++ [rsdt / 4096]

end

variable {m : Mem} {rsdt a i j k n : ℕ} {s t : Sdts} {signature : ℕ → UInt8} {pages : List ℕ} {offset : ℕ}

lemma entryOf_lt : entryOf m rsdt i < 2 ^ 32 := wordAt_lt

lemma Looked.unique (hi : Looked m rsdt signature i) (hni : Named m signature (entryOf m rsdt i))
    (hj : Looked m rsdt signature j) (hnj : Named m signature (entryOf m rsdt j)) : i = j := by
  rcases Nat.lt_trichotomy i j with hlt | heq | hlt
  · exact absurd hni (hj.2 i hlt)
  · exact heq
  · exact absurd hnj (hi.2 j hlt)

lemma identityMap_entry (ha : a < 2 ^ 32) : s.identityMap (pgrounddown a) = .ok { s with mapped := a / 4096 :: s.mapped } := by
  have hlt : pgrounddown a < 2 ^ 32 := by
    rw [pgrounddown, u32_eq ha]
    omega
  have hround : pgrounddown a = a - a % 1024 := by rw [pgrounddown, u32_eq ha]
  rw [identityMap_ok (by rw [u32_eq hlt, hround]; omega), u32_eq hlt, hround]
  congr 3
  omega

lemma strcmpAt_cases (m : Mem) (s : Sdts) (signature : ℕ → UInt8) (a n i : ℕ) :
    ((∀ c < n, (∀ d < c, (signature (i + d)).toNat = byteAt m (a + (i + d))) → InPages s.mapped (u32 (a + (i + c)))) ∧
      ∃ r, strcmpAt m s signature a n i = .ok r ∧ (r = true ↔ ∀ c < n, (signature (i + c)).toNat = byteAt m (a + (i + c)))) ∨
    strcmpAt m s signature a n i = .error .fault ∧ ∃ c < n,
      (∀ d < c, (signature (i + d)).toNat = byteAt m (a + (i + d))) ∧ ¬ InPages s.mapped (u32 (a + (i + c))) := by
  induction n generalizing i with
  | zero => exact Or.inl ⟨fun c hc => absurd hc (Nat.not_lt_zero c), true, rfl, by simp⟩
  | succ n ih =>
    rw [strcmpAt]
    by_cases h0 : InPages s.mapped (u32 (a + i))
    · rw [loadByte_ok h0, ok_bind]
      by_cases hsame : (signature i).toNat = byteAt m (a + i)
      · rw [if_neg (not_not.mpr hsame)]
        have hshift : ∀ c, i + 1 + c = i + (c + 1) := fun c => by omega
        rcases ih (i + 1) with ⟨hin, r, hr, hiff⟩ | ⟨hr, c, hc, hbefore, hout⟩
        · simp only [hshift] at hin hiff
          refine Or.inl ⟨fun c hc hbefore => ?_, r, hr, hiff.trans ⟨fun h c hc => ?_, fun h c hc => h (c + 1) (by omega)⟩⟩
          · cases c with
            | zero => exact h0
            | succ c => exact hin c (by omega) fun d hd => hbefore (d + 1) (by omega)
          · cases c with
            | zero => exact hsame
            | succ c => exact h c (by omega)
        · simp only [hshift] at hbefore hout
          refine Or.inr ⟨hr, c + 1, by omega, fun d hd => ?_, hout⟩
          cases d with
          | zero => exact hsame
          | succ d => exact hbefore d (by omega)
      · rw [if_pos hsame]
        refine Or.inl ⟨fun c hc hbefore => ?_, false, rfl, ?_⟩
        · cases c with
          | zero => exact h0
          | succ c => exact absurd (hbefore 0 (Nat.succ_pos c)) hsame
        · exact iff_of_false Bool.false_ne_true fun h => hsame (h 0 (Nat.succ_pos n))
    · rw [loadByte_fault h0]
      exact Or.inr ⟨rfl, 0, Nat.succ_pos n, fun d hd => absurd hd (Nat.not_lt_zero d), h0⟩

/-- How the search ends: at a byte that is not covered, at a table with the signature, or at the end of the list. -/
lemma findSdt_cases (signature : ℕ → UInt8) (pages : List ℕ) (n i : ℕ) (hn : i + n = entriesOf (sdtLength m rsdt))
    (hbefore : ∀ j < i, ¬ Named m signature (entryOf m rsdt j)) :
    (findSdt m signature n i ⟨rsdt, startPages m rsdt pages i⟩ = .error .fault ∧
      ∃ k, Looked m rsdt signature k ∧ ¬ LookCovered m rsdt signature pages k) ∨
    (∃ k, findSdt m signature n i ⟨rsdt, startPages m rsdt pages i⟩ =
        .ok (⟨rsdt, startPages m rsdt pages (k + 1)⟩, some (entryOf m rsdt k)) ∧
      Looked m rsdt signature k ∧ Named m signature (entryOf m rsdt k) ∧
      ∀ j, i ≤ j → j ≤ k → LookCovered m rsdt signature pages j) ∨
    (∃ t, findSdt m signature n i ⟨rsdt, startPages m rsdt pages i⟩ = .ok (t, none)) ∧
      (∀ j, ¬ (Looked m rsdt signature j ∧ Named m signature (entryOf m rsdt j))) ∧
      ∀ j, i ≤ j → Looked m rsdt signature j → LookCovered m rsdt signature pages j := by
  induction n generalizing i with
  | zero =>
    refine Or.inr (Or.inr ⟨⟨_, rfl⟩, fun j hj => hbefore j ?_ hj.2, fun j hij hj => ?_⟩)
    · have hlt := hj.1.1
      omega
    · have hlt := hj.1
      omega
  | succ n ih =>
    have hlook : Looked m rsdt signature i := ⟨by omega, hbefore⟩
    rw [findSdt]
    by_cases hentry : Within (InPages (startPages m rsdt pages i)) (rsdt + SDT_HEADER + 4 * i) 4
    · rw [loadWord_ok hentry, ok_bind, ← entryOf, identityMap_entry entryOf_lt, ok_bind, ← startPages]
      rcases strcmpAt_cases m ⟨rsdt, startPages m rsdt pages (i + 1)⟩ signature (entryOf m rsdt i) 4 0 with ⟨hin, r, hr, hiff⟩ | ⟨hr, c, hc, hsame, hout⟩
      · simp only [Nat.zero_add] at hin hiff
        have hcovered : LookCovered m rsdt signature pages i := ⟨hentry, hin⟩
        rw [hr, ok_bind]
        by_cases hnamed : Named m signature (entryOf m rsdt i)
        · rw [if_pos (hiff.mpr hnamed)]
          refine Or.inr (Or.inl ⟨i, rfl, hlook, hnamed, fun j hij hji => ?_⟩)
          rwa [Nat.le_antisymm hji hij]
        · rw [if_neg fun h => hnamed (hiff.mp h)]
          have hbefore' : ∀ j < i + 1, ¬ Named m signature (entryOf m rsdt j) := by
            intro j hj
            rcases Nat.lt_succ_iff_lt_or_eq.mp hj with hlt | rfl
            · exact hbefore j hlt
            · exact hnamed
          rcases ih (i + 1) (by omega) hbefore' with hfault | ⟨k, hk, hlk, hnk, hall⟩ | ⟨hend, hnone, hall⟩
          · exact Or.inl hfault
          · refine Or.inr (Or.inl ⟨k, hk, hlk, hnk, fun j hij hjk => ?_⟩)
            rcases Nat.eq_or_lt_of_le hij with rfl | hlt
            · exact hcovered
            · exact hall j hlt hjk
          · refine Or.inr (Or.inr ⟨hend, hnone, fun j hij hj => ?_⟩)
            rcases Nat.eq_or_lt_of_le hij with rfl | hlt
            · exact hcovered
            · exact hall j hlt hj
      · simp only [Nat.zero_add] at hsame hout
        rw [hr]
        exact Or.inl ⟨rfl, i, hlook, fun h => hout (h.signature c hc hsame)⟩
    · rw [loadWord_fault hentry]
      exact Or.inl ⟨rfl, i, hlook, fun h => hentry h.entry⟩

lemma cacheSdtBySignature_cases (m : Mem) (rsdt : ℕ) (signature : ℕ → UInt8) (pages : List ℕ) :
    (cacheSdtBySignature m ⟨rsdt, pages⟩ signature = .error .fault ∧ ¬ CallCovered m rsdt signature pages) ∨
    CallCovered m rsdt signature pages ∧
      ((∃ k store, Looked m rsdt signature k ∧ Named m signature (entryOf m rsdt k) ∧
        cacheSdtBySignature m ⟨rsdt, pages⟩ signature = .ok (⟨rsdt, startPages m rsdt pages (k + 1)⟩, store)) ∨
      (∃ reason, cacheSdtBySignature m ⟨rsdt, pages⟩ signature = .error (.panic reason)) ∧
        ∀ j, ¬ (Looked m rsdt signature j ∧ Named m signature (entryOf m rsdt j))) := by
  rw [cacheSdtBySignature]
  by_cases hlength : Within (InPages pages) (rsdt + 4) 4
  · rw [loadWord_ok hlength, ok_bind]
    have hlast : ∀ k, Looked m rsdt signature k → Named m signature (entryOf m rsdt k) →
        ∀ j, Looked m rsdt signature j → j ≤ k := by
      intro k hlk hnk j hj
      by_contra hgt
      exact hj.2 k (by omega) hnk
    rcases findSdt_cases signature pages (entriesOf (sdtLength m rsdt)) 0 (Nat.zero_add _)
      (fun j hj => absurd hj (Nat.not_lt_zero j)) with
      ⟨hfind, k, hlk, hnot⟩ | ⟨k, hfind, hlk, hnk, hall⟩ | ⟨⟨t, hfind⟩, hnone, hall⟩
    · refine Or.inl ⟨?_, fun h => hnot (h.looks k hlk)⟩
      exact congrArg (· >>= _) hfind
    · have hlooks : ∀ j, Looked m rsdt signature j → LookCovered m rsdt signature pages j :=
        fun j hj => hall j (Nat.zero_le j) (hlast k hlk hnk j hj)
      by_cases hhead : Within (InPages (startPages m rsdt pages (k + 1))) (entryOf m rsdt k + 4) 4
      · rcases loadBytes_cases (InPages (startPages m rsdt pages (k + 1))) m (entryOf m rsdt k)
          (sdtLength m (entryOf m rsdt k)) with ⟨store, hstore, hin⟩ | ⟨hstore, hout⟩
        · refine Or.inr ⟨⟨hlength, hlooks, fun j hj hnj => ?_⟩, Or.inl ⟨k, store, hlk, hnk, ?_⟩⟩
          · obtain rfl := hj.unique hnj hlk hnk
            exact ⟨hhead, hin⟩
          · refine (congrArg (· >>= _) hfind).trans ?_
            rw [ok_bind]
            simp only [loadWord_ok hhead, ok_bind]
            exact congrArg (· >>= _) hstore
        · refine Or.inl ⟨?_, fun h => hout (h.table k hlk hnk).2⟩
          refine (congrArg (· >>= _) hfind).trans ?_
          rw [ok_bind]
          simp only [loadWord_ok hhead, ok_bind]
          exact congrArg (· >>= _) hstore
      · refine Or.inl ⟨?_, fun h => hhead (h.table k hlk hnk).1⟩
        refine (congrArg (· >>= _) hfind).trans ?_
        rw [ok_bind]
        simp only [loadWord_fault hhead, error_bind]
    · refine Or.inr ⟨⟨hlength, fun j hj => hall j (Nat.zero_le j) hj, fun j hj hnj => absurd ⟨hj, hnj⟩ (hnone j)⟩,
        Or.inr ⟨⟨_, congrArg (· >>= _) hfind⟩, hnone⟩⟩
  · rw [loadWord_fault hlength]
    exact Or.inl ⟨rfl, fun h => hlength h.length⟩

lemma cacheTables_iff (signatures : List (ℕ → UInt8)) (pages : List ℕ) :
    cacheTables m signatures ⟨rsdt, pages⟩ ≠ .error .fault ↔ RunCovered m rsdt signatures pages := by
  induction signatures generalizing pages with
  | nil => exact iff_of_true (fun h => by cases h) trivial
  | cons signature signatures ih =>
    rw [RunCovered]
    have hfold : cacheTables m (signature :: signatures) ⟨rsdt, pages⟩ =
        (do return (← cacheSdtBySignature m ⟨rsdt, pages⟩ signature).1) >>= cacheTables m signatures := List.foldlM_cons ..
    rw [hfold]
    rcases cacheSdtBySignature_cases m rsdt signature pages with
      ⟨hcall, hnot⟩ | ⟨hcovered, ⟨k, store, hlk, hnk, hcall⟩ | ⟨⟨reason, hcall⟩, hnone⟩⟩
    · rw [hcall]
      exact iff_of_false (not_not.mpr rfl) fun h => hnot h.1
    · rw [hcall]
      refine (ih _).trans ⟨fun h => ⟨hcovered, fun j hj hnj => ?_⟩, fun h => h.2 k hlk hnk⟩
      obtain rfl := hj.unique hnj hlk hnk
      exact h
    · rw [hcall]
      exact iff_of_true (fun h => by cases h) ⟨hcovered, fun j hj hnj => absurd ⟨hj, hnj⟩ (hnone j)⟩

/-- What is read of the tables is mapped exactly where it lies in the pages in which the root table and the
tables looked at so far start. -/
theorem reads_mapped_iff {oldAcpi : ℕ} (hp : oldAcpi ≠ 0) (hinit : initRsdtV1 n m oldAcpi ⟨0, []⟩ = .ok s)
    (signatures : List (ℕ → UInt8)) : cacheTables m signatures s ≠ .error .fault ↔
      RunCovered m (rsdpAddress m (rsdpOf oldAcpi)) signatures (rsdtPages m (rsdpAddress m (rsdpOf oldAcpi))) := by
  have hstore : s = ⟨rsdpAddress m (rsdpOf oldAcpi), rsdtPages m (rsdpAddress m (rsdpOf oldAcpi))⟩ := by
    have hmap := mapRsdt_ok (m := m) (s := ⟨0, []⟩) (rsdpAddress_lt (m := m) (a := rsdpOf oldAcpi))
    have hgo := initRsdtV1_returns hp hinit
    rw [hmap] at hgo
    exact (Except.ok.inj hgo).symm
  rw [hstore]
  exact cacheTables_iff signatures _

/-- The root table at 0x070E0000 lists one table, an empty MADT `offset` bytes on. -/
def oneTable (offset : ℕ) : Mem := fun a =>
  if a < 64 then goodRsdp 7 a
  else if a = 0x070E0004 then 40
  else if a < 0x070E0024 then 0
  else if a < 0x070E0028 then BitVec.ofNat 8 ((0x070E0000 + offset) / 2 ^ (8 * (a - 0x070E0024)))
  else [65, 80, 73, 67, 44].getD (a - 0x070E0000 - offset) 0

def apic : ℕ → UInt8 := bytesOf [65, 80, 73, 67]

lemma initRsdtV1_oneTable (hoffset : offset ∈ [0x100, 0xFF0]) :
    initRsdtV1 0 (oneTable offset) 8 ⟨0, []⟩ = .ok ⟨0x070E0000, [0, 0x70E0]⟩ := by
  rw [List.mem_pair] at hoffset
  rcases hoffset with rfl | rfl
  · rw [initRsdtV1_eq (by decide) (by decide), if_neg (by decide), mapRsdt_ok rsdpAddress_lt]
    rfl
  · rw [initRsdtV1_eq (by decide) (by decide), if_neg (by decide), mapRsdt_ok rsdpAddress_lt]
    rfl

/-- All in one page. -/
theorem reads_mapped_page : cacheTables (oneTable 0x100) [apic] ⟨0x070E0000, [0, 0x70E0]⟩ ≠ .error .fault := by
  apply (reads_mapped_iff (by decide) (initRsdtV1_oneTable (List.mem_cons_self)) [apic]).mpr
  refine ⟨⟨by decide, fun i hi => ?_, fun i hi _ => ?_⟩, fun _ _ _ => trivial⟩
  · obtain rfl : i = 0 := Nat.lt_one_iff.mp hi.1
    exact ⟨by decide, by decide⟩
  · obtain rfl : i = 0 := Nat.lt_one_iff.mp hi.1
    exact ⟨by decide, by decide⟩

/-- The table starts sixteen bytes before the end of the page. -/
theorem reads_not_mapped : initRsdtV1 0 (oneTable 0xFF0) 8 ⟨0, []⟩ = .ok ⟨0x070E0000, [0, 0x70E0]⟩ ∧
    cacheTables (oneTable 0xFF0) [apic] ⟨0x070E0000, [0, 0x70E0]⟩ = .error .fault := by
  refine ⟨initRsdtV1_oneTable (by decide), ?_⟩
  by_contra hne
  have hrun := (cacheTables_iff _ _).mp hne
  have hnamed : Named (oneTable 0xFF0) apic (entryOf (oneTable 0xFF0) 0x070E0000 0) := by
    rw [Named]
    decide
  obtain ⟨-, hin⟩ := hrun.1.table 0 ⟨by decide, fun j hj => absurd hj (Nat.not_lt_zero j)⟩ hnamed
  exact absurd (hin 16 (by decide)) (by decide)

end WordOS.Acpi
