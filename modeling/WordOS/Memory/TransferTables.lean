import WordOS.Memory.TransferSteps

/-! The loops of `transfer_pages_to_pae`: one new table for each half of an old one. -/

namespace WordOS.Memory

open Machine Lib

/-- Between two steps; `rest` is what will still be handed out. -/
structure Underway (fuel : ℕ) (s : Paging) (l used rest : List (ℕ × ℕ)) (S : VmmState) : Prop where
  midway : Midway s l used S.paging
  supplies : Supplies fuel S rest
  rootPd : (S.vmms S.kernelVmm).rootPd = s.cr3
  perm : (used ++ rest).Perm l

/-- What the entries for table `j` are in the directory that lies in the page `q₀`. -/
def Moved (s : Paging) (l used : List (ℕ × ℕ)) (q₀ : ℕ × ℕ) (m : Phys) (j : ℕ) : Prop :=
  match s.table32 j with
  | some f => m.read64 (q₀.2 / 4096) (2 * (j - 768) + 1) % 2 = 0 ∧ ∃ q ∈ used, q.2 / 4096 ≠ q₀.2 / 4096 ∧
      m.read64 (q₀.2 / 4096) (2 * (j - 768)) = q.2 + 3 ∧ ∀ k < 512, ¬ Remaps l j k → m.read64 (q.2 / 4096) k = s.phys f k
  | none => ∀ i, i / 2 = j - 768 → m.read64 (q₀.2 / 4096) i = s.phys.read64 (q₀.2 / 4096) i

def tableCount (s : Paging) (j : ℕ) : ℕ → ℕ
  | 0 => 0
  | n + 1 => (if (s.table32 j).isSome then 1 else 0) + tableCount s (j + 1) n

variable {s t t' : Paging} {S S' : VmmState} {l l' used used' rest : List (ℕ × ℕ)} {q q₀ q₁ q₂ : ℕ × ℕ} {m m' : Phys}
  {fuel b p d f g i j k n o v x : ℕ}

lemma Phys.read64_frame (h : m' g = m g) : m'.read64 g i = m.read64 g i := by
  rw [read64, read64, h]

lemma Moved.mono (h : Moved s l used q₀ m j) (hu : ∀ q ∈ used, q ∈ used')
    (hframe : ∀ q ∈ used, q.2 / 4096 ≠ q₀.2 / 4096 → m' (q.2 / 4096) = m (q.2 / 4096))
    (hdir : ∀ i, i / 2 = j - 768 → m'.read64 (q₀.2 / 4096) i = m.read64 (q₀.2 / 4096) i) : Moved s l used' q₀ m' j := by
  rw [Moved] at h ⊢
  cases ht : s.table32 j with
  | none =>
    rw [ht] at h
    exact fun i hi => (hdir i hi).trans (h i hi)
  | some f =>
    rw [ht] at h
    obtain ⟨hodd, q, hq, hne, heven, hin⟩ := h
    refine ⟨?_, q, hu q hq, hne, ?_, fun k hk hr => ?_⟩
    · rw [hdir _ (by omega)]
      exact hodd
    · rw [hdir _ (by omega)]
      exact heven
    · rw [Phys.read64_frame (hframe q hq hne)]
      exact hin k hk hr

lemma copy_page (h : Midway s l used t) (hl : Mappable s l) (hq : q ∈ used) (ht : s.table32 j = some f) (hi : i + n ≤ 512)
    (ho : o + 512 ≤ 1024) :
    ∃ m, copyEntries (RECURSIVE_ADDR + j * 4096 + 4 * o) q.1 n i t = .ok { t with phys := m } ∧
      Midway s l used { t with phys := m } ∧ (∀ g ≠ q.2 / 4096, m g = t.phys g) ∧
      (∀ k < i, m.read64 (q.2 / 4096) k = t.phys.read64 (q.2 / 4096) k) ∧
      ∀ k, i ≤ k → k < i + n → m.read64 (q.2 / 4096) k = t.phys f (o + k) := by
  induction n generalizing i t with
  | zero => exact ⟨t.phys, rfl, h, fun _ _ => rfl, fun _ _ => rfl, fun k hk hk' => absurd hk' (by omega)⟩
  | succ n ih =>
    have hload := Paging.load32_window (k := o + i) h.recursive ((h.tables j).trans ht) (by omega)
    obtain ⟨hstore, h₁⟩ := h.storeWords_page hl hq (show i < 512 by omega) (t.phys f (o + i))
    obtain ⟨m, hm, hmid, hframe, hlow, hhigh⟩ := ih h₁ (show i + 1 + n ≤ 512 by omega)
    obtain ⟨g, -, hg, hu, -⟩ := h.frame q hq
    have hF : f ≠ q.2 / 4096 := by
      rw [hg, Nat.mul_div_cancel_left _ (by norm_num)]
      exact table_ne hu ht
    refine ⟨m, ?_, hmid, fun g hg => (hframe g hg).trans (Phys.write64_frame hg), fun k hk => ?_, fun k hk hk' => ?_⟩
    · have haddr : RECURSIVE_ADDR + j * 4096 + 4 * o + 4 * i = RECURSIVE_ADDR + j * 4096 + 4 * (o + i) := by ring
      rw [copyEntries, haddr, hload, ok_bind, hstore, ok_bind]
      exact hm
    · exact (hlow k (by omega)).trans (Phys.read64_write64_ne fun _ => by omega)
    · rcases Nat.eq_or_lt_of_le hk with rfl | hk
      · exact (hlow i (by omega)).trans (Phys.read64_write64_self ((h.bound f (o + i)).trans (by norm_num)))
      · refine (hhigh k hk (by omega)).trans ?_
        exact congrFun (Phys.write64_frame hF) (o + k)

namespace Underway

lemma write64 (h : Underway fuel s l used rest S) (hl : Mappable s l) (hq : q ∈ used) (hi : i < 512) (x : ℕ) :
    S.paging.storeWords (q.1 + 8 * i) x = .ok { S.paging with phys := S.paging.phys.write64 (q.2 / 4096) i x } ∧
      Underway fuel s l used rest { S with paging := { S.paging with phys := S.paging.phys.write64 (q.2 / 4096) i x } } := by
  obtain ⟨hst, hm⟩ := h.midway.storeWords_page hl hq hi x
  exact ⟨hst, hm, h.supplies.withPaging rfl, h.rootPd, h.perm⟩

lemma kalloc (h : Underway fuel s l used (q :: rest) S) (hl : Mappable s l) :
    ∃ pmm S', allocPhysPage S.paging.pmm = .ok (q.2, pmm) ∧
      pageKalloc fuel { S with paging := { S.paging with pmm := pmm } } PGSIZE 0x3 (u32 q.2) = .ok (q.1, S') ∧
      Underway fuel s l (q :: used) rest S' ∧ (∀ w, (S'.vmms w).rootPd = (S.vmms w).rootPd) ∧
      (∀ g, s.Unused32 g → S'.paging.phys g = S.paging.phys g) ∧ ∀ q' ∈ used, q'.2 / 4096 ≠ q.2 / 4096 := by
  obtain ⟨b, p⟩ := q
  cases h.supplies with
  | @cons _ u _ _ pmm _ ha hp hm hs =>
    have hmem : (b, p) ∈ l := h.perm.mem_iff.mp (by simp)
    have hfresh : b ∉ used.map Prod.fst := by
      have hn := (h.perm.map Prod.fst).nodup_iff.mpr hl.nodup
      rw [List.map_append, List.map_cons] at hn
      exact fun hb => (List.nodup_append.mp hn).2.2 b hb b (by simp) rfl
    obtain ⟨f, hlt, rfl, hclear, hw⟩ := allocPhysPage_frame h.midway.sized ha hp
    obtain ⟨t', hmap, hmid, hpmm, hsame⟩ := h.midway.map hl hmem hfresh rfl hlt hclear hw
    obtain ⟨hpaging, hk, hroot⟩ := vmmTakeRange_frame (w := S.kernelVmm) hm
    have htake := vmmTakeRange_withPaging_ok hm { S.paging with pmm := pmm }
    have hb := (hl.page _ hmem).1.2
    rw [RECURSIVE_ADDR] at hb
    have hu : u32 (4096 * (256 + f)) = 4096 * (256 + f) := u32_eq (by omega)
    have hpage : pageOf (4096 * (256 + f)) + 0 = 4096 * (256 + f) := by
      rw [pageOf]
      omega
    have hbase : u32 (b + 4096 * (256 + f) % 4096) = b := by
      rw [u32]
      omega
    refine ⟨pmm, u.withPaging t', ha, ?_, ⟨hmid, ?_, ?_, ?_⟩, fun w => (vmmTakeRange_frame (w := w) hm).2.2, hsame,
      fun q' hq' he => ?_⟩
    · have hlength : bytePgroundup (u32 PGSIZE) = 4096 := by decide
      have hroot' : ((u.withPaging { S.paging with pmm := pmm }).vmms S.kernelVmm).rootPd = s.cr3 := hroot.trans h.rootPd
      rw [pageKalloc, vmmPageAlloc]
      change (vmmTakeRange fuel (S.withPaging { S.paging with pmm := pmm }) S.kernelVmm (bytePgroundup (u32 PGSIZE)) >>= _) = _
      rw [hlength, htake, ok_bind]
      dsimp only
      rw [hroot', hu, mapPages, if_neg (by omega), hbase]
      simp only [pure_eq, ok_bind, Bool.false_eq_true, if_false, hpage, Nat.add_zero, u32_eq (show b < 2 ^ 32 by omega)]
      rw [show (u.withPaging { S.paging with pmm := pmm }).paging = { S.paging with pmm := pmm } from rfl, hmap]
      rfl
    · exact hs.withPaging hpmm
    · have hroot' : (u.vmms u.kernelVmm).rootPd = s.cr3 := by
        rw [hk, hroot, h.rootPd]
      exact hroot'
    · exact List.perm_middle.symm.trans h.perm
    · obtain ⟨g, hg, hgp, -, hbit⟩ := h.midway.frame q' hq'
      have hfg : g = f := by omega
      rw [hfg, hclear] at hbit
      cases hbit

lemma half (h : Underway fuel s l used (q :: rest) S) (hl : Mappable s l) (ht : s.table32 j = some f) (ho : o + 512 ≤ 1024) :
    ∃ S', transferHalf fuel S (RECURSIVE_ADDR + j * 4096 + 4 * o) = .ok (q.2, S') ∧ Underway fuel s l (q :: used) rest S' ∧
      (∀ q' ∈ used, q'.2 / 4096 ≠ q.2 / 4096 ∧ S'.paging.phys (q'.2 / 4096) = S.paging.phys (q'.2 / 4096)) ∧
      ∀ k < 512, ¬ Remaps l j (o + k) → S'.paging.phys.read64 (q.2 / 4096) k = s.phys f (o + k) := by
  obtain ⟨pmm, S₁, ha, hk, h₁, -, hsame, hne⟩ := h.kalloc hl
  obtain ⟨m, hcopy, hmid, hframe, -, hin⟩ := copy_page (i := 0) (n := 512) h₁.midway hl List.mem_cons_self ht (by omega) ho
  refine ⟨S₁.withPaging { S₁.paging with phys := m }, ?_, ⟨hmid, h₁.supplies.withPaging rfl, h₁.rootPd, h₁.perm⟩,
    fun q' hq' => ⟨hne q' hq', ?_⟩, fun k hk hr => ?_⟩
  · rw [transferHalf, ha, ok_bind]
    dsimp only
    rw [hk, ok_bind]
    dsimp only
    rw [hcopy]
    rfl
  · obtain ⟨g, -, hg, hu, -⟩ := h.midway.frame q' hq'
    have hgf : q'.2 / 4096 = 256 + g := by omega
    refine (hframe _ (hne q' hq')).trans ?_
    rw [hgf]
    exact hsame _ hu
  · refine (hin k (Nat.zero_le k) (by omega)).trans ?_
    exact h₁.midway.words j (o + k) f ht (by omega) hr

lemma table (h : Underway fuel s l used (q₁ :: q₂ :: rest) S) (hl : Mappable s l) (hq₀ : q₀ ∈ used)
    (ht : s.table32 j = some f) (hj : 768 ≤ j) :
    ∃ S', transferTable fuel S q₀.1 j = .ok S' ∧ Underway fuel s l (q₂ :: q₁ :: used) rest S' ∧
      (∀ q ∈ used, q.2 / 4096 ≠ q₀.2 / 4096 → S'.paging.phys (q.2 / 4096) = S.paging.phys (q.2 / 4096)) ∧
      (∀ i, i / 2 ≠ j - 768 → S'.paging.phys.read64 (q₀.2 / 4096) i = S.paging.phys.read64 (q₀.2 / 4096) i) ∧
      Moved s l (q₂ :: q₁ :: used) q₀ S'.paging.phys j := by
  have hjlt := Paging.table32_lt ht
  obtain ⟨S₁, hhalf₁, h₁, hsame₁, hin₁⟩ := h.half hl (o := 0) ht (by omega)
  obtain ⟨hst₁, h₂⟩ := h₁.write64 hl (List.mem_cons_of_mem _ hq₀) (show (j - 768) * 2 < 512 by omega) (q₁.2 ||| 3)
  obtain ⟨S₃, hhalf₂, h₃, hsame₃, -⟩ := h₂.half hl (o := 512) ht (by omega)
  obtain ⟨hst₂, h₄⟩ := h₃.write64 hl (List.mem_cons_of_mem _ (List.mem_cons_of_mem _ hq₀))
    (show (j - 768) * 2 + 1 < 512 by omega) q₂.2
  obtain ⟨f₁, hf₁, hp₁, -⟩ := h₁.midway.frame q₁ List.mem_cons_self
  obtain ⟨f₂, hf₂, hp₂, -⟩ := h₃.midway.frame q₂ List.mem_cons_self
  have hor : q₁.2 ||| 3 = q₁.2 + 3 := by
    rw [hp₁]
    exact (Nat.two_pow_add_eq_or_of_lt (i := 12) (by norm_num) _).symm
  have hF₁ : q₁.2 / 4096 ≠ q₀.2 / 4096 := (hsame₁ q₀ hq₀).1.symm
  -- the directory and the first new table, through the second half
  have hdir : S₃.paging.phys (q₀.2 / 4096) = S₁.paging.phys.write64 (q₀.2 / 4096) ((j - 768) * 2) (q₁.2 ||| 3) (q₀.2 / 4096) :=
    (hsame₃ q₀ (List.mem_cons_of_mem _ hq₀)).2
  have hfirst : S₃.paging.phys (q₁.2 / 4096) = S₁.paging.phys (q₁.2 / 4096) :=
    (hsame₃ q₁ List.mem_cons_self).2.trans (Phys.write64_frame hF₁)
  refine ⟨_, ?_, h₄, fun q hq hne => ?_, fun i hi => ?_, ?_⟩
  · rw [Nat.mul_zero, Nat.add_zero] at hhalf₁
    change transferHalf fuel S (0xffc00000 + j * 0x1000) = _ at hhalf₁
    change transferHalf fuel _ (0xffc00000 + j * 0x1000 + 4 * 512) = _ at hhalf₂
    simp only [transferTable, hhalf₁, ok_bind, hst₁, hhalf₂, hst₂, pure_eq]
  · refine (Phys.write64_frame hne).trans ?_
    refine (hsame₃ q (List.mem_cons_of_mem _ hq)).2.trans ?_
    exact (Phys.write64_frame hne).trans (hsame₁ q hq).2
  · refine (Phys.read64_write64_ne fun _ => by omega).trans ?_
    refine (Phys.read64_frame hdir).trans ?_
    refine (Phys.read64_write64_ne fun _ => by omega).trans ?_
    exact Phys.read64_frame (hsame₁ q₀ hq₀).2
  · rw [Moved, ht]
    have hodd : 2 * (j - 768) + 1 = (j - 768) * 2 + 1 := by omega
    have heven : 2 * (j - 768) = (j - 768) * 2 := by omega
    refine ⟨?_, q₁, by simp, hF₁, ?_, fun k hk hr => ?_⟩
    · rw [hodd]
      refine (congrArg (· % 2) (Phys.read64_write64_self (by omega))).trans ?_
      omega
    · rw [heven]
      refine (Phys.read64_write64_ne fun _ => by omega).trans ?_
      refine (Phys.read64_frame hdir).trans ?_
      rw [hor]
      exact Phys.read64_write64_self (by omega)
    · refine (Phys.read64_frame (Phys.write64_frame hF₁)).trans ?_
      refine (Phys.read64_frame hfirst).trans ?_
      have := hin₁ k hk
      rw [Nat.zero_add] at this
      exact this hr

lemma tables {next : List (ℕ × ℕ)} (h : Underway fuel s l used (rest ++ next) S) (hl : Mappable s l) (hq₀ : q₀ ∈ used)
    (hj : j = 768 + d) (hn : d + n = 256) (hcount : rest.length = 2 * tableCount s j n)
    (hdir : ∀ i, d ≤ i / 2 → S.paging.phys.read64 (q₀.2 / 4096) i = s.phys.read64 (q₀.2 / 4096) i) :
    ∃ used' S', transferTables fuel s.cr3 q₀.1 n j S = .ok S' ∧ Underway fuel s l used' next S' ∧ (∀ q ∈ used, q ∈ used') ∧
      (∀ q ∈ used, q.2 / 4096 ≠ q₀.2 / 4096 → S'.paging.phys (q.2 / 4096) = S.paging.phys (q.2 / 4096)) ∧
      (∀ i, i / 2 < d → S'.paging.phys.read64 (q₀.2 / 4096) i = S.paging.phys.read64 (q₀.2 / 4096) i) ∧
      ∀ i, j ≤ i → i < 1024 → Moved s l used' q₀ S'.paging.phys i := by
  induction n generalizing j d used rest S with
  | zero =>
    obtain rfl : rest = [] := List.eq_nil_of_length_eq_zero hcount
    exact ⟨used, S, rfl, h, fun _ hq => hq, fun _ _ _ => rfl, fun _ _ => rfl, fun i hi hi' => absurd hi' (by omega)⟩
  | succ n ih =>
    have hd : j - 768 = d := by omega
    have hj' : j + 1 = 768 + (d + 1) := by omega
    have hn' : d + 1 + n = 256 := by omega
    have htest : target (S.paging.phys s.cr3 j) = s.table32 j := by
      rw [← h.midway.tables, Paging.table32_eq (by omega), h.midway.cr3]
    rw [tableCount] at hcount
    cases ht : s.table32 j with
    | none =>
      have hp : ¬ Present (S.paging.phys s.cr3 j) := by
        intro hp
        rw [ht, Paging.target_of_present hp] at htest
        cases htest
      rw [ht] at hcount
      obtain ⟨used', S', hrun, h', hsub, hframe, hbelow, hmoved⟩ := ih h hq₀ hj' hn' (by simpa using hcount)
        fun i hi => hdir i (by omega)
      refine ⟨used', S', ?_, h', hsub, hframe, fun i hi => hbelow i (by omega), fun i hi hi' => ?_⟩
      · rw [transferTables, if_neg hp]
        exact hrun
      · rcases Nat.eq_or_lt_of_le hi with rfl | hi
        · rw [Moved, ht, hd]
          exact fun i hi => (hbelow i (by omega)).trans (hdir i (by omega))
        · exact hmoved i hi hi'
    | some f =>
      have hp : Present (S.paging.phys s.cr3 j) := (Paging.exists_of_target (htest.trans ht)).1
      rw [ht] at hcount
      obtain ⟨q₁, q₂, rest, rfl⟩ : ∃ q₁ q₂ rest', rest = q₁ :: q₂ :: rest' := by
        rcases rest with _ | ⟨q₁, _ | ⟨q₂, rest⟩⟩
        · simp at hcount
        · simp at hcount
          omega
        · exact ⟨q₁, q₂, rest, rfl⟩
      obtain ⟨S₁, htable, h₁, hframe₁, hdir₁, hmoved₁⟩ := h.table hl hq₀ ht (by omega)
      rw [hd] at hdir₁
      have hused : ∀ q ∈ used, q ∈ q₂ :: q₁ :: used := fun q hq => List.mem_cons_of_mem _ (List.mem_cons_of_mem _ hq)
      have hcount' : rest.length = 2 * tableCount s (j + 1) n := by
        simp only [List.length_cons, Option.isSome_some, if_true] at hcount
        omega
      obtain ⟨used', S', hrun, h', hsub, hframe, hbelow, hmoved⟩ := ih h₁ (hused q₀ hq₀) hj' hn' hcount'
        fun i hi => (hdir₁ i (by omega)).trans (hdir i (by omega))
      refine ⟨used', S', ?_, h', fun q hq => hsub q (hused q hq), fun q hq hne => ?_, fun i hi => ?_, fun i hi hi' => ?_⟩
      · rw [transferTables, if_pos hp, htable]
        exact hrun
      · exact (hframe q (hused q hq) hne).trans (hframe₁ q hq hne)
      · exact (hbelow i (by omega)).trans (hdir₁ i (by omega))
      · rcases Nat.eq_or_lt_of_le hi with rfl | hi
        · exact hmoved₁.mono hsub hframe fun i hi => hbelow i (by omega)
        · exact hmoved i hi hi'

end Underway

end WordOS.Memory
