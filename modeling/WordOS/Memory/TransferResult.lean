import WordOS.Memory.TransferTables
import WordOS.Memory.VmmOwnership

/-! What the directory that `transfer_pages_to_pae` builds translates. -/

namespace WordOS.Memory

open Machine Lib

/-- With PAE, once `init_pae` has put the new directory into the PDPT. -/
def Paging.enterPae (t : Paging) (pd : ℕ) : Paging := { t with pdpt := Function.update t.pdpt 3 (pd ||| 1) }

/-- The kernel's addresses below the recursive slot, less the pages of `l`. -/
def Kept32 (l : List (ℕ × ℕ)) (v : ℕ) : Prop := 0xC0000000 ≤ v ∧ v < RECURSIVE_ADDR ∧ pageOf v ∉ l.map Prod.fst

/-- All pages but those the transfer maps for itself are where they were. -/
def Transfers (s : Paging) (l : List (ℕ × ℕ)) (pd : ℕ) (t : Paging) : Prop :=
  ∀ v, Kept32 l v → (t.enterPae pd).walk64 v = s.walk32 v

/-- The pages mapped are in the first halves of their tables. -/
def FirstHalves (s : Paging) (l : List (ℕ × ℕ)) : Prop := ∀ v, Kept32 l v → (s.walk32 v).isSome → ptOf v < 512

/-- An entry for which there is no table, as the frame of the new directory had it. -/
def Leftover (s : Paging) (dir e : ℕ) : Prop :=
  ∃ j i, 768 ≤ j ∧ j < 1023 ∧ s.table32 j = none ∧ i / 2 = j - 768 ∧ e = s.phys.read64 dir i

/-- A frame without tables that is not handed out. -/
def Untouched (s : Paging) (l : List (ℕ × ℕ)) (g : ℕ) : Prop := s.Unused32 g ∧ ∀ q ∈ l, q.2 / 4096 ≠ g

def Vacant (s : Paging) (g : ℕ) : Prop := ∀ k < 512, ¬ Present (s.phys.read64 g k)

/-- Tables with the recursive slot, frames to hand out that hold none of them, and the pages and the
frames that will be handed out. -/
structure CanTransfer (fuel : ℕ) (S : VmmState) (v : ℕ) (l : List (ℕ × ℕ)) : Prop where
  recursive : S.paging.Recursive32
  bound : ∀ f i, S.paging.phys f i < 2 ^ 32
  sized : S.paging.pmm.numFrames = NUM_FRAMES
  free : ∀ f, S.paging.pmm.bit f = false → S.paging.Unused32 (256 + f)
  kernelRoot : (S.vmms S.kernelVmm).rootPd = S.paging.cr3
  root : (S.vmms v).rootPd = S.paging.cr3
  mappable : Mappable S.paging l
  supplies : Supplies fuel S l
  length : l.length = 1 + 2 * tableCount S.paging 768 256

variable {s t : Paging} {S : VmmState} {l used : List (ℕ × ℕ)} {q₀ : ℕ × ℕ} {fuel f g i j k v pd e : ℕ}

lemma Kept32.indices (h : Kept32 l v) : v / 2 ^ 30 = 3 ∧ 768 ≤ pdOf v ∧ pdOf v < 1023 ∧ v / 2 ^ 21 % 2 ^ 9 / 2 = pdOf v - 768 ∧
    (ptOf v < 512 → v / 2 ^ 21 % 2 ^ 9 = 2 * (pdOf v - 768) ∧ v / 2 ^ 12 % 2 ^ 9 = ptOf v) ∧
    (¬ ptOf v < 512 → v / 2 ^ 21 % 2 ^ 9 = 2 * (pdOf v - 768) + 1) := by
  obtain ⟨hlow, hhigh, -⟩ := h
  rw [RECURSIVE_ADDR] at hhigh
  rw [pdOf, ptOf, u32_eq (by omega)]
  omega

lemma walk64_enterPae (h : Kept32 l v) (hpd : pd = 4096 * g) (hg : g < 2 ^ 20) : (t.enterPae pd).walk64 v =
    (target (t.phys.read64 g (v / 2 ^ 21 % 2 ^ 9))).bind fun f => target (t.phys.read64 f (v / 2 ^ 12 % 2 ^ 9)) := by
  have hor : pd ||| 1 = 4096 * g + 1 := by
    rw [hpd]
    exact (Nat.two_pow_add_eq_or_of_lt (i := 12) (by norm_num) _).symm
  have hp : Present (4096 * g + 1) := by
    rw [Present]
    omega
  have hf : frameOf (4096 * g + 1) = g := by
    rw [frameOf]
    omega
  have hpdpt : (t.enterPae pd).pdpt (v / 2 ^ 30) = 4096 * g + 1 := by
    rw [h.indices.1, Paging.enterPae, hor]
    exact Function.update_self 3 (4096 * g + 1) t.pdpt
  rw [Paging.walk64, hpdpt]
  simp only [if_pos hp, hf]
  change (if Present (t.phys.read64 g _) then _ else _) = _
  by_cases h₁ : Present (t.phys.read64 g (v / 2 ^ 21 % 2 ^ 9))
  · rw [if_pos h₁, Paging.target_of_present h₁]
    rfl
  · rw [if_neg h₁, Paging.target_of_not_present h₁]
    rfl

lemma Kept32.not_remaps (h : Kept32 l v) (hl : Mappable s l) : ¬ Remaps l (pdOf v) (ptOf v) := by
  rw [remaps_iff hl h.2.1]
  exact h.2.2

lemma Kept32.walk32_eq (h : Kept32 l v) (ht : s.table32 (pdOf v) = some f) : s.walk32 v = target (s.phys f (ptOf v)) := by
  have hlt : v < 2 ^ 32 := h.2.1.trans (by decide)
  rw [Paging.walk32_eq hlt, Paging.entryAt32_of_table ht (Paging.ptOf_lt v)]
  split_ifs with hp
  · exact (Paging.target_of_present hp).symm
  · exact (Paging.target_of_not_present hp).symm

lemma walk32_of_none (hv : v < 2 ^ 32) (ht : s.table32 (pdOf v) = none) : s.walk32 v = none := by
  rw [Paging.walk32_eq hv, Paging.entryAt32, PageTables.entry_of_table_none ht]
  rfl

/-- A page in the first half of a table that has moved. -/
lemma Moved.walk_first (hm : Moved s l used q₀ t.phys (pdOf v)) (hl : Mappable s l) (hv : Kept32 l v)
    (ht : s.table32 (pdOf v) = some f) (hlow : ptOf v < 512) (hdir : ∃ g < 2 ^ 20, q₀.2 = 4096 * g ∧ q₀.2 / 4096 = g)
    (hframes : ∀ q ∈ used, ∃ f < 2 ^ 19, q.2 = 4096 * (256 + f)) : (t.enterPae q₀.2).walk64 v = s.walk32 v := by
  obtain ⟨-, -, -, -, hfirst, -⟩ := hv.indices
  obtain ⟨hd, hk⟩ := hfirst hlow
  obtain ⟨g, hg, hpd, hgd⟩ := hdir
  rw [Moved, ht] at hm
  obtain ⟨-, q, hq, -, heven, hin⟩ := hm
  obtain ⟨f', hf', hp⟩ := hframes q hq
  have hpres : Present (q.2 + 3) := by
    rw [Present]
    omega
  have hframe : frameOf (q.2 + 3) = q.2 / 4096 := by
    rw [frameOf]
    omega
  have hno := hv.not_remaps hl
  rw [walk64_enterPae hv hpd hg, ← hgd, hd, hk, heven, Paging.target_of_present hpres, Option.bind_some, hframe, hin _ hlow hno,
    hv.walk32_eq ht]

/-- What has been built for the tables, at the frame `g` of the new directory. -/
structure Built (s : Paging) (l used : List (ℕ × ℕ)) (q₀ : ℕ × ℕ) (t : Paging) : Prop where
  midway : Midway s l used t
  perm : used.Perm l
  first : q₀ ∈ used
  moved : ∀ j, 768 ≤ j → j < 1023 → Moved s l used q₀ t.phys j

namespace Built

lemma dir (h : Built s l used q₀ t) : ∃ g < 2 ^ 20, q₀.2 = 4096 * g ∧ q₀.2 / 4096 = g := by
  obtain ⟨f, hf, hp, -, -⟩ := h.midway.frame q₀ h.first
  exact ⟨256 + f, by omega, hp, by omega⟩

lemma walk_first (h : Built s l used q₀ t) (hl : Mappable s l) (hv : Kept32 l v) (ht : s.table32 (pdOf v) = some f)
    (hlow : ptOf v < 512) : (t.enterPae q₀.2).walk64 v = s.walk32 v := by
  obtain ⟨-, hj, hj', -⟩ := hv.indices
  refine (h.moved _ hj hj').walk_first hl hv ht hlow h.dir fun q hq => ?_
  obtain ⟨f', hf', hp, -⟩ := h.midway.frame q hq
  exact ⟨f', hf', hp⟩

lemma walk_second (h : Built s l used q₀ t) (hv : Kept32 l v) (ht : s.table32 (pdOf v) = some f) (hhigh : ¬ ptOf v < 512) :
    (t.enterPae q₀.2).walk64 v = none := by
  obtain ⟨-, hj, hj', -, -, hsecond⟩ := hv.indices
  obtain ⟨g, hg, hpd, hgd⟩ := h.dir
  have hm := h.moved _ hj hj'
  rw [Moved, ht] at hm
  have hno : ¬ Present (t.phys.read64 (q₀.2 / 4096) (2 * (pdOf v - 768) + 1)) := by
    rw [Present, hm.1]
    exact Nat.zero_ne_one
  rw [walk64_enterPae hv hpd hg, ← hgd, hsecond hhigh, Paging.target_of_not_present hno, Option.bind_none]

lemma walk_none (h : Built s l used q₀ t) (hv : Kept32 l v) (ht : s.table32 (pdOf v) = none) : (t.enterPae q₀.2).walk64 v =
    (target (s.phys.read64 (q₀.2 / 4096) (v / 2 ^ 21 % 2 ^ 9))).bind fun f => target (t.phys.read64 f (v / 2 ^ 12 % 2 ^ 9)) := by
  obtain ⟨-, hj, hj', hi, -, -⟩ := hv.indices
  obtain ⟨g, hg, hpd, hgd⟩ := h.dir
  have hm := h.moved _ hj hj'
  rw [Moved, ht] at hm
  rw [walk64_enterPae hv hpd hg, ← hgd, hm _ hi]

lemma untouched (h : Built s l used q₀ t) (hg : Untouched s l g) : t.phys.read64 g k = s.phys.read64 g k := by
  apply Phys.read64_frame
  exact h.midway.others g hg.1 fun q hq => hg.2 q (h.perm.mem_iff.mp hq)

lemma transfers (h : Built s l used q₀ t) (hl : Mappable s l) (hfirst : FirstHalves s l)
    (hleft : ∀ e, Leftover s (q₀.2 / 4096) e → Present e → Untouched s l (frameOf e) ∧ Vacant s (frameOf e)) :
    Transfers s l q₀.2 t := by
  intro v hv
  obtain ⟨-, hj, hj', hi, -, -⟩ := hv.indices
  cases ht : s.table32 (pdOf v) with
  | some f =>
    by_cases hlow : ptOf v < 512
    · exact h.walk_first hl hv ht hlow
    · rw [h.walk_second hv ht hlow]
      cases hw : s.walk32 v with
      | none => rfl
      | some g => exact absurd (hfirst v hv (by rw [hw]; rfl)) hlow
  | none =>
    rw [h.walk_none hv ht, walk32_of_none (hv.2.1.trans (by decide)) ht]
    set e := s.phys.read64 (q₀.2 / 4096) (v / 2 ^ 21 % 2 ^ 9) with he
    by_cases hp : Present e
    · obtain ⟨hun, hvac⟩ := hleft e ⟨pdOf v, _, hj, hj', ht, hi, he⟩ hp
      rw [Paging.target_of_present hp, Option.bind_some, h.untouched hun]
      exact Paging.target_of_not_present (hvac _ (Nat.mod_lt _ (by norm_num)))
    · rw [Paging.target_of_not_present hp, Option.bind_none]

lemma firstHalves (h : Built s l used q₀ t) (ht : Transfers s l q₀.2 t) : FirstHalves s l := by
  intro v hv hsome
  by_contra hhigh
  have hlt : v < 2 ^ 32 := hv.2.1.trans (by decide)
  cases hf : s.table32 (pdOf v) with
  | none =>
    rw [walk32_of_none hlt hf] at hsome
    cases hsome
  | some f =>
    rw [← ht v hv, h.walk_second hv hf hhigh] at hsome
    cases hsome

lemma vacant (h : Built s l used q₀ t) (hl : Mappable s l) (ht : Transfers s l q₀.2 t) (he : Leftover s (q₀.2 / 4096) e)
    (hp : Present e) (hun : Untouched s l (frameOf e)) : Vacant s (frameOf e) := by
  intro k hk hpk
  obtain ⟨j, i, hj, hj', hnone, hi, rfl⟩ := he
  -- the address that the two entries translate
  set v := 2 ^ 30 * 3 + i * 2 ^ 21 + k * 2 ^ 12 with hvdef
  have hlow : 0xC0000000 ≤ v ∧ v < RECURSIVE_ADDR := by
    rw [RECURSIVE_ADDR]
    omega
  have hpd : pdOf v = j := by
    rw [pdOf, u32_eq (by omega)]
    omega
  have hkept : Kept32 l v := by
    refine ⟨hlow.1, hlow.2, fun hmem => ?_⟩
    rw [← remaps_iff hl hlow.2] at hmem
    obtain ⟨q, hq, hjq, -⟩ := hmem
    obtain ⟨-, f, hf⟩ := hl.page q hq
    rw [← hjq, hpd, hnone] at hf
    cases hf
  have hdi : v / 2 ^ 21 % 2 ^ 9 = i := by omega
  have hti : v / 2 ^ 12 % 2 ^ 9 = k := by omega
  have hw := ht v hkept
  rw [h.walk_none hkept (hpd ▸ hnone), walk32_of_none (hlow.2.trans (by decide)) (hpd ▸ hnone), hdi, hti,
    Paging.target_of_present hp, Option.bind_some, h.untouched hun, Paging.target_of_present hpk] at hw
  cases hw

end Built

lemma CanTransfer.underway (h : CanTransfer fuel S v l) : Underway fuel S.paging l [] l S where
  midway := ⟨rfl, h.recursive, fun _ => rfl, fun _ _ _ _ _ _ => rfl, h.bound, h.sized, h.free,
    fun _ hq => absurd hq List.not_mem_nil, fun _ hq => absurd hq List.not_mem_nil, fun _ _ _ => rfl⟩
  supplies := h.supplies
  rootPd := h.kernelRoot
  perm := List.Perm.refl l

/-- The transfer on its own, with what is left to be handed out after it. -/
lemma Underway.transferPages {next : List (ℕ × ℕ)} (h : Underway fuel s l [] (q₀ :: (used ++ next)) S) (hl : Mappable s l)
    (hs : S.paging.phys = s.phys) (hroot : (S.vmms v).rootPd = s.cr3) (hlen : used.length = 2 * tableCount s 768 256) :
    ∃ used' S', transferPagesToPae fuel S v = .ok (q₀.2, S') ∧ Underway fuel s l used' next S' ∧ q₀ ∈ used' ∧
      ∀ j, 768 ≤ j → j < 1023 → Moved s l used' q₀ S'.paging.phys j := by
  obtain ⟨pmm, S₁, halloc, hkalloc, h₁, hsameRoot, hsame, -⟩ := h.kalloc hl
  obtain ⟨f, -, hf, hun, -⟩ := h₁.midway.frame q₀ List.mem_cons_self
  have hg : q₀.2 / 4096 = 256 + f := by omega
  have hdir : ∀ i, 0 ≤ i / 2 → S₁.paging.phys.read64 (q₀.2 / 4096) i = s.phys.read64 (q₀.2 / 4096) i := by
    intro i _
    rw [hg, ← hs]
    exact Phys.read64_frame (hsame _ hun)
  obtain ⟨used', S₂, hrun, h₂, hsub, -, -, hmoved⟩ :=
    h₁.tables (d := 0) (j := 768) (n := 256) hl List.mem_cons_self rfl rfl hlen hdir
  have hq₀ : q₀ ∈ used' := hsub q₀ List.mem_cons_self
  obtain ⟨hstore, h₃⟩ := h₂.write64 hl hq₀ (show 511 < 512 by omega) (q₀.2 ||| 1)
  have hv : (S₁.vmms v).rootPd = s.cr3 := (hsameRoot v).trans hroot
  refine ⟨used', _, ?_, h₃, hq₀, fun j hj hj' => ?_⟩
  · rw [transferPagesToPae, halloc, ok_bind]
    dsimp only
    rw [hkalloc, ok_bind]
    dsimp only
    rw [hv, hrun, ok_bind, hstore]
    rfl
  · refine (hmoved j hj (by omega)).mono (fun _ hq => hq) (fun q _ hne => Phys.write64_frame hne) fun i hi => ?_
    exact Phys.read64_write64_ne fun _ => by omega

lemma transferPagesToPae_built (h : CanTransfer fuel S v (q₀ :: l)) :
    ∃ used S', transferPagesToPae fuel S v = .ok (q₀.2, S') ∧ Built S.paging (q₀ :: l) used q₀ S'.paging := by
  have hlen : l.length = 2 * tableCount S.paging 768 256 := by
    have := h.length
    rw [List.length_cons] at this
    omega
  have hunderway := h.underway
  rw [← List.append_nil l] at hunderway
  obtain ⟨used, S', hrun, h', hq₀, hmoved⟩ := hunderway.transferPages (by rw [List.append_nil]; exact h.mappable) rfl h.root hlen
  rw [List.append_nil] at h' hmoved
  have hperm := h'.perm
  rw [List.append_nil] at hperm
  exact ⟨used, S', hrun, h'.midway, hperm, hq₀, hmoved⟩

/-- The transfer succeeds. Its directory translates as before the pages that are in the first halves of their
tables; the entries without a table are as the frame of the directory had them. -/
theorem transferPagesToPae_transfers (h : CanTransfer fuel S v (q₀ :: l)) :
    ∃ pd S', transferPagesToPae fuel S v = .ok (pd, S') ∧
      (FirstHalves S.paging (q₀ :: l) ∧ (∀ e, Leftover S.paging (q₀.2 / 4096) e → Present e →
          Untouched S.paging (q₀ :: l) (frameOf e) ∧ Vacant S.paging (frameOf e)) →
        Transfers S.paging (q₀ :: l) pd S'.paging) ∧
      (Transfers S.paging (q₀ :: l) pd S'.paging → FirstHalves S.paging (q₀ :: l) ∧
        ∀ e, Leftover S.paging (q₀.2 / 4096) e → Present e → Untouched S.paging (q₀ :: l) (frameOf e) →
          Vacant S.paging (frameOf e)) := by
  obtain ⟨used, S', hrun, hb⟩ := transferPagesToPae_built h
  refine ⟨q₀.2, S', hrun, fun hc => hb.transfers h.mappable hc.1 hc.2, fun ht => ⟨hb.firstHalves ht, fun e he hp hun => ?_⟩⟩
  exact hb.vacant h.mappable ht he hp hun

/-- The directory of `oneTable`, whose table maps one page. -/
def onePage (k : ℕ) : Paging := { oneTable with phys := fun f i => if f = 2 ∧ i = k then 0x9003 else oneTable.phys f i }

def kernelWith (k : ℕ) : VmmState := { freshKernel with paging := onePage k }

/-- The pages and the frames that `n` calls in a row are given. -/
def handOut (fuel : ℕ) : ℕ → VmmState → Exec (List (ℕ × ℕ))
  | 0, _ => .ok []
  | n + 1, s => do
    let (p, pmm) ← allocPhysPage s.paging.pmm
    match ← vmmTakeRange fuel s s.kernelVmm 4096 with
    | (none, _) => .ok []
    | (some b, u) => if p = 0 then .ok [] else return (b, p) :: (← handOut fuel n (u.withPaging { s.paging with pmm := pmm }))

lemma supplies_handOut {n : ℕ} (h : handOut fuel n S = .ok l) : Supplies fuel S l := by
  induction n generalizing S l with
  | zero =>
    obtain rfl := Except.ok.inj h
    exact .nil
  | succ n ih =>
    obtain ⟨⟨p, pmm⟩, ha, h⟩ := bind_eq_ok.mp h
    obtain ⟨⟨o, u⟩, ht, h⟩ := bind_eq_ok.mp h
    rcases o with _ | b
    · obtain rfl := Except.ok.inj h
      exact .nil
    · dsimp only at h
      split_ifs at h with hp
      · obtain rfl := Except.ok.inj h
        exact .nil
      · obtain ⟨l', hl, h⟩ := bind_eq_ok.mp h
        obtain rfl := Except.ok.inj h
        exact .cons ha hp ht (ih hl)

def fivePages : List (ℕ × ℕ) :=
  [(0xCC000000, 0x100000), (0xCC001000, 0x101000), (0xCC002000, 0x102000), (0xCC003000, 0x103000), (0xCC004000, 0x104000)]

lemma onePage_table (h : (onePage k).table32 j = some f) : j = 816 ∧ f = 2 ∨ j = 1023 ∧ f = 1 := by
  rw [Paging.table32_eq (Paging.table32_lt h)] at h
  have he : (onePage k).phys 1 j = if j = 1023 then 0x1003 else if j = 816 then 0x2003 else 0 := by
    simp [onePage, oneTable]
  rw [show (onePage k).cr3 = 1 from rfl, he] at h
  by_cases h₁ : j = 1023
  · rw [if_pos h₁] at h
    exact .inr ⟨h₁, (Option.some.inj h).symm⟩
  by_cases h₂ : j = 816
  · rw [if_neg h₁, if_pos h₂] at h
    exact .inl ⟨h₂, (Option.some.inj h).symm⟩
  · rw [if_neg h₁, if_neg h₂] at h
    cases h

lemma onePage_self : (onePage k).table32 1023 = some 1 := by
  rw [Paging.table32_eq (by decide)]
  simp [onePage, oneTable, target, Present, frameOf]

lemma onePage_table_some : (onePage k).table32 816 = some 2 := by
  rw [Paging.table32_eq (by decide)]
  simp [onePage, oneTable, target, Present, frameOf]

lemma onePage_recursive : (onePage k).Recursive32 := by
  refine ⟨fun _ d hd => ?_, fun _ _ _ _ _ => rfl, fun _ j t _ hj ht hd => ?_, fun _ j _ j' t hj hj' ht ht' => ⟨rfl, ?_⟩⟩
  · obtain rfl := Option.some.inj hd
    exact (Paging.table32_eq (by decide)).symm.trans onePage_self
  · obtain rfl : 1 = t := Option.some.inj hd
    have := onePage_table ht
    omega
  · have := onePage_table ht
    have := onePage_table ht'
    omega

lemma kernelWith_canTransfer (hcount : tableCount (onePage k) 768 256 = 2)
    (hout : (handOut 8 5 (kernelWith k)).toOption.map (fun l => decide (l = fivePages)) = some true) :
    CanTransfer 8 (kernelWith k) 0x1000 fivePages := by
  obtain ⟨l, hl, hd⟩ := exists_of_toOption_map hout
  obtain rfl := of_decide_eq_true hd
  refine ⟨onePage_recursive, fun f i => ?_, rfl, fun f _ => ⟨fun _ hd => ?_, fun _ j hj => ?_⟩, rfl, rfl, ⟨fun q hq => ⟨?_, 2, ?_⟩, by decide⟩,
    supplies_handOut hl, ?_⟩
  · change (if f = 2 ∧ i = k then 0x9003 else if f = 1 then if i = 1023 then 0x1003 else if i = 816 then 0x2003 else 0 else 0) < 2 ^ 32
    split_ifs <;> decide
  · have : 1 = 256 + f := Option.some.inj hd
    omega
  · have := onePage_table hj
    omega
  · have : ∀ q ∈ fivePages, q.1 % 4096 = 0 ∧ q.1 + 4096 ≤ RECURSIVE_ADDR := by decide
    exact this q hq
  · have : ∀ q ∈ fivePages, pdOf q.1 = 816 := by decide
    rw [this q hq]
    exact onePage_table_some
  · rw [show (kernelWith k).paging = onePage k from rfl, hcount]
    rfl

lemma kept_onePage (hk : k < 1024) (hfive : 5 ≤ k) : Kept32 fivePages (0xCC000000 + 4096 * k) ∧
    pdOf (0xCC000000 + 4096 * k) = 816 ∧ ptOf (0xCC000000 + 4096 * k) = k := by
  have hpage : pageOf (0xCC000000 + 4096 * k) = 0xCC000000 + 4096 * k := by
    rw [pageOf]
    omega
  refine ⟨⟨by omega, by rw [RECURSIVE_ADDR]; omega, ?_⟩, ?_, ?_⟩
  · rw [hpage]
    intro hm
    have : ∀ b ∈ fivePages.map Prod.fst, b < 0xCC000000 + 4096 * 5 := by decide
    have := this _ hm
    omega
  · rw [pdOf, u32_eq (by omega)]
    omega
  · rw [ptOf, u32_eq (by omega)]
    omega

/-- The page with index 100 keeps its frame. -/
theorem transferPagesToPae_transfers_one : ∃ pd S', transferPagesToPae 8 (kernelWith 100) 0x1000 = .ok (pd, S') ∧
    Transfers (onePage 100) fivePages pd S'.paging := by
  have h := kernelWith_canTransfer (k := 100) (by decide +kernel) (by decide +kernel)
  obtain ⟨pd, S', hrun, himp, -⟩ := transferPagesToPae_transfers h
  refine ⟨pd, S', hrun, himp ⟨fun v hv hsome => ?_, fun e he hp => ?_⟩⟩
  · cases ht : (onePage 100).table32 (pdOf v) with
    | none =>
      rw [show (kernelWith 100).paging = onePage 100 from rfl, walk32_of_none (hv.2.1.trans (by decide)) ht] at hsome
      cases hsome
    | some f =>
      rw [show (kernelWith 100).paging = onePage 100 from rfl, hv.walk32_eq ht] at hsome
      by_contra hhigh
      obtain ⟨-, -, hpd, -⟩ := hv.indices
      have hf : f = 2 := by
        rcases onePage_table ht with ⟨-, hf⟩ | ⟨hpd', -⟩
        · exact hf
        · omega
      have hz : (onePage 100).phys f (ptOf v) = 0 := by
        have hne : ptOf v ≠ 100 := by omega
        simp [onePage, oneTable, hf, hne]
      rw [hz] at hsome
      cases hsome
  · obtain ⟨j, i, -, -, -, -, rfl⟩ := he
    have hz : (onePage 100).phys.read64 (0x100000 / 4096) i = 0 := by
      simp [Phys.read64, onePage, oneTable]
    rw [show (kernelWith 100).paging = onePage 100 from rfl, hz] at hp
    cases hp

/-- The page with index 600 is in the second half of its table. -/
theorem transferPagesToPae_loses_page : ∃ pd S', transferPagesToPae 8 (kernelWith 600) 0x1000 = .ok (pd, S') ∧
    ¬ Transfers (onePage 600) fivePages pd S'.paging := by
  have h := kernelWith_canTransfer (k := 600) (by decide +kernel) (by decide +kernel)
  obtain ⟨used, S', hrun, hb⟩ := transferPagesToPae_built h
  obtain ⟨hkept, hpd, hpt⟩ := kept_onePage (k := 600) (by decide) (by decide)
  refine ⟨_, S', hrun, fun ht => ?_⟩
  have hlt := hb.firstHalves ht _ hkept
  rw [show (kernelWith 600).paging = onePage 600 from rfl, hkept.walk32_eq (hpd ▸ onePage_table_some), hpt] at hlt
  exact absurd (hlt (by decide)) (by decide)

end WordOS.Memory
