import WordOS.Memory.TableFrames

/-! Writes with PAE through a page whose frame holds no table, and the four parts of the address space. -/

namespace WordOS.Memory

open Machine Lib

namespace Paging

variable {s t u : Paging} {virt phys flags v w x y f g i j k n : ℕ}

/-- `t` differs from `s` in frame `f` of the memory alone. -/
structure Touches (s : Paging) (f : ℕ) (t : Paging) : Prop where
  eq : t = { s with phys := t.phys }
  frame : ∀ f', f' ≠ f → t.phys f' = s.phys f'

/-- The page at `virt` is mapped to frame `f`, which holds no table. -/
structure Opens (s : Paging) (virt f : ℕ) : Prop where
  recursive : s.Recursive
  unused : s.Unused f
  page : virt % 4096 = 0 ∧ virt < 2 ^ 32
  walk : s.walk64 virt = some f

namespace Touches

lemma refl (s : Paging) (f : ℕ) : Touches s f s := ⟨rfl, fun _ _ => rfl⟩

lemma trans (h : Touches s f t) (h' : Touches t f u) : Touches s f u := by
  refine ⟨?_, fun f' hf' => (h'.frame f' hf').trans (h.frame f' hf')⟩
  have := h'.eq
  rw [h.eq] at this
  exact this

lemma pmm (h : Touches s f t) : t.pmm = s.pmm := by rw [h.eq]

lemma pdpt (h : Touches s f t) : t.pdpt = s.pdpt := by rw [h.eq]

lemma maxBitExtension (h : Touches s f t) : t.maxBitExtension = s.maxBitExtension := by rw [h.eq]

lemma directory (h : Touches s f t) : t.directory = s.directory := by
  funext i
  rw [Paging.directory, Paging.directory, h.pdpt]

lemma entries64 (h : Touches s f t) (f' k : ℕ) (hf' : f' ≠ f) : t.entries64 f' k = s.entries64 f' k := by
  rw [Paging.entries64, Paging.entries64, Phys.read64, Phys.read64, h.frame f' hf']

lemma table (h : Touches s f t) (hf : s.Unused f) (i j : ℕ) : t.table i j = s.table i j := by
  rw [Paging.table, h.directory]
  exact hf.table_of_write h.entries64 i j

lemma entryAt (h : Touches s f t) (hf : s.Unused f) (i j k : ℕ) : t.entryAt i j k = s.entryAt i j k := by
  rw [Paging.entryAt, h.directory]
  exact hf.entry_of_write h.entries64 i j k

lemma unused (h : Touches s f t) (hf : s.Unused f) (hg : s.Unused g) : t.Unused g := by
  refine ⟨fun i => ?_, fun i j => ?_⟩
  · rw [h.directory]
    exact hg.not_dir i
  · have := h.table hf i j
    rw [Paging.table] at this
    rw [this]
    exact hg.not_table i j

lemma recursive (h : Touches s f t) (hf : s.Unused f) (hs : s.Recursive) : t.Recursive := by
  have htab := h.table hf
  simp only [Paging.table, h.directory] at htab
  rw [Paging.Recursive, h.directory]
  exact hs.of_tables htab

lemma ready (h : Touches s f t) (hf : s.Unused f) (hs : s.PaeReady) : t.PaeReady := by
  refine ⟨h.recursive hf hs.recursive, h.maxBitExtension ▸ hs.bits, h.pmm ▸ hs.spare.headroom, fun g hg hb => ?_⟩
  rw [h.pmm] at hb
  exact h.unused hf (hs.spare.unused g hg hb)

lemma opens (h : Touches s f t) (ho : Opens s virt f) : Opens t virt f := by
  refine ⟨h.recursive ho.unused ho.recursive, h.unused ho.unused ho.unused, ho.page, ?_⟩
  rw [walk64_eq ho.page.2, translation_entryAt ho.page.2, h.entryAt ho.unused, ← translation_entryAt ho.page.2, ← walk64_eq ho.page.2]
  exact ho.walk

end Touches

lemma walk64_page (h : w / 4096 = v / 4096) : s.walk64 w = s.walk64 v := by
  have h₁ : w / 2 ^ 30 = v / 2 ^ 30 := by omega
  have h₂ : w / 2 ^ 21 % 2 ^ 9 = v / 2 ^ 21 % 2 ^ 9 := by omega
  have h₃ : w / 2 ^ 12 % 2 ^ 9 = v / 2 ^ 12 % 2 ^ 9 := by omega
  rw [walk64, walk64, h₁, h₂, h₃]

lemma Opens.store64 (h : Opens s virt f) (hk : k < 512) (hx : x < 2 ^ 64) :
    ∃ t, s.store64 (virt + 8 * k) x = .ok t ∧ Touches s f t ∧ t.entries64 f k = x ∧
      ∀ k', k' ≠ k → t.entries64 f k' = s.entries64 f k' := by
  have hpage := h.page.1
  have hw : s.walk64 (virt + 8 * k) = some f := (walk64_page (by omega)).trans h.walk
  have hi : (virt + 8 * k) % 2 ^ 12 / 8 = k := by omega
  refine ⟨s.setEntry f k x, ?_, ⟨rfl, fun f' hf' => Phys.write64_frame hf'⟩, entries64_setEntry_self hx hk,
    fun k' hk' => entries64_setEntry fun _ => hk'⟩
  rw [Paging.store64, hw, hi]
  rfl

lemma Opens.clear64 (h : Opens s virt f) (hn : k + n ≤ 512) :
    ∃ t, s.clear64 (virt + 8 * k) n = .ok t ∧ Touches s f t ∧ (∀ k' < k, t.entries64 f k' = s.entries64 f k') ∧
      ∀ k', k ≤ k' → k' < k + n → t.entries64 f k' = 0 := by
  induction n generalizing s k with
  | zero => exact ⟨s, rfl, .refl s f, fun _ _ => rfl, fun k' hk hk' => absurd hk' (by omega)⟩
  | succ n ih =>
    obtain ⟨t, ht, htouch, hself, hother⟩ := h.store64 (show k < 512 by omega) (show 0 < 2 ^ 64 by norm_num)
    obtain ⟨u, hu, hrest, hbelow, hin⟩ := ih (htouch.opens h) (k := k + 1) (by omega)
    refine ⟨u, ?_, htouch.trans hrest, fun k' hk' => ?_, fun k' hk hk' => ?_⟩
    · rw [Paging.clear64, ht, ok_bind]
      exact hu
    · rw [hbelow k' (by omega), hother k' (by omega)]
    · rcases Nat.eq_or_lt_of_le hk with rfl | hk
      · rw [hbelow k (Nat.lt_succ_self k), hself]
      · exact hin k' hk (by omega)

/-- The page tables reached through entry `i` of the PDPT, without the others. -/
def only (i : ℕ) (s : Paging) : Paging := { s with pdpt := fun i' => if i' = i then s.pdpt i else 0 }

lemma walk64_only (hv : v / 2 ^ 30 = i) : (s.only i).walk64 v = s.walk64 v := by
  subst hv
  have hp : (s.only (v / 2 ^ 30)).pdpt (v / 2 ^ 30) = s.pdpt (v / 2 ^ 30) := if_pos rfl
  rw [walk64, walk64, hp]
  rfl

lemma load64_only (hv : v / 2 ^ 30 = i) : (s.only i).load64 v = s.load64 v := by
  rw [load64, load64, walk64_only hv]
  rfl

lemma store64_only (hv : v / 2 ^ 30 = i) : (s.only i).store64 v x = (s.store64 v x).map (only i) := by
  rw [store64, store64, walk64_only hv]
  cases s.walk64 v <;> rfl

lemma clear64_only (hlo : 2 ^ 30 * i ≤ v) (hhi : v + 8 * n ≤ 2 ^ 30 * (i + 1)) :
    (s.only i).clear64 v n = (s.clear64 v n).map (only i) := by
  induction n generalizing s v with
  | zero => rfl
  | succ n ih =>
    rw [clear64, clear64, store64_only (by omega)]
    cases s.store64 v 0 with
    | error e => rfl
    | ok t => exact ih (by omega) (by omega)

lemma bind_only {α : Type} {x : Exec α} {f g : α → Exec Paging} (h : ∀ a, f a = (g a).map (only i)) :
    (x >>= f) = (x >>= g).map (only i) := by
  cases x with
  | error e => rfl
  | ok a => exact h a

lemma map_only_bind {x : Exec Paging} {f : Paging → Exec Paging} (h : ∀ t, f (only i t) = (f t).map (only i)) :
    (x.map (only i) >>= f) = (x >>= f).map (only i) := by
  cases x with
  | error e => rfl
  | ok t => exact h t

lemma store64_twice_only (hv : v / 2 ^ 30 = i) :
    ((s.only i).store64 v x >>= fun t => t.store64 v y) = (s.store64 v x >>= fun t => t.store64 v y).map (only i) := by
  rw [store64_only hv]
  exact map_only_bind fun t => store64_only hv

lemma window_part (hi : i < 4) (hj : j < 512) (hk : k < 512) : (ptWindow i j + 8 * k) / 2 ^ 30 = i := by
  rw [ptWindow_eq hi hj]
  omega

lemma createNewPaePt_only (hi : i < 4) (hj : j < 512) :
    createNewPaePt (s.only i) i j (recursiveAddrOf i) = (createNewPaePt s i j (recursiveAddrOf i)).map (only i) := by
  have hp : (s.only i).pdpt i = s.pdpt i := if_pos rfl
  have hpmm : (s.only i).pmm = s.pmm := rfl
  have hd : recursiveAddrOf i ||| 511 * 2 ^ 12 = ptWindow i 511 := rfl
  have ht : recursiveAddrOf i ||| j * 2 ^ 12 = ptWindow i j := rfl
  have hw := ptWindow_eq hi hj
  rw [createNewPaePt, createNewPaePt, hp, hd, ht]
  by_cases hpres : ¬ Present (s.pdpt i)
  · rw [if_pos hpres, if_pos hpres]
    rfl
  rw [if_neg hpres, if_neg hpres]
  dsimp only
  rw [hpmm]
  refine bind_only fun q => ?_
  obtain ⟨p, pmm⟩ := q
  have hs := store64_only (s := { s with pmm := pmm }) (x := p ||| 3) (window_part hi (show 511 < 512 by norm_num) hj)
  have he : ({ s.only i with pmm := pmm } : Paging) = ({ s with pmm := pmm } : Paging).only i := rfl
  dsimp only
  rw [he, hs]
  exact map_only_bind fun t => clear64_only (by omega) (by omega)

lemma paeMmap_only (hi : pdpteOf virt = i) : paeMmap (s.only i) phys virt flags = (paeMmap s phys virt flags).map (only i) := by
  have hi4 : i < 4 := hi ▸ pdpteOf_lt virt
  have hj := pdIndexOf_lt virt
  have hk := ptIndexOf_lt virt
  have hpd : (pdWindow i + 8 * pdIndexOf virt) / 2 ^ 30 = i := by
    rw [pdWindow_eq hi4]
    exact window_part hi4 (show 511 < 512 by norm_num) hj
  have hpt := window_part hi4 hj hk
  have hbits : (s.only i).maxBitExtension = s.maxBitExtension := rfl
  rw [paeMmap, paeMmap, hi, hbits]
  dsimp only
  rw [load64_only hpd]
  by_cases h₁ : phys / 2 ^ s.maxBitExtension ≠ 0
  · rw [if_pos h₁, if_pos h₁]
    rfl
  rw [if_neg h₁, if_neg h₁]
  by_cases h₂ : phys % 2 ^ 10 ≠ 0
  · rw [if_pos h₂, if_pos h₂]
    rfl
  rw [if_neg h₂, if_neg h₂]
  refine bind_only fun e => ?_
  by_cases hp : Present e
  · rw [if_pos hp, if_pos hp, ok_bind, ok_bind]
    exact store64_twice_only hpt
  · rw [if_neg hp, if_neg hp, createNewPaePt_only hi4 hj]
    exact map_only_bind fun t => store64_twice_only hpt

lemma paeUnmap_only (hi : pdpteOf virt = i) : paeUnmap (s.only i) virt = (paeUnmap s virt).map (only i) := by
  have hpt := window_part (hi ▸ pdpteOf_lt virt : i < 4) (pdIndexOf_lt virt) (ptIndexOf_lt virt)
  have hpmm : (s.only i).pmm = s.pmm := rfl
  rw [paeUnmap, paeUnmap, hi]
  dsimp only
  rw [load64_only hpt, hpmm]
  refine bind_only fun e => bind_only fun pmm => ?_
  exact store64_only (s := { s with pmm := pmm }) hpt

end Paging

end WordOS.Memory
