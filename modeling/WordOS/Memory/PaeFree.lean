import WordOS.Memory.PaeTranslation
import WordOS.Memory.VmmOwnership

/-! `pae_page_free`, which returns no range. -/

namespace WordOS.Memory

open Machine BinaryTree Utils Lib Lib.ColoredTree

/-- The index of the gigabyte comes from bit 29 on, `*pt` is the first entry of the table, and `phys` is what the entry has
in its low ten bits. -/
def paePageFree (s : VmmState) (_cvmm addr : ℕ) : Exec VmmState := do
  let pdpte := u32 addr / 2 ^ 29
  let pdEntry := u32 addr / 2 ^ 21 % 2 ^ 9
  let ptEntry := u32 addr / 2 ^ 12 % 2 ^ 9
  let recursiveAddr := u32 (pdpte * 2 ^ 30 + 0x3fe00000)
  let pt := recursiveAddr ||| pdEntry * 2 ^ 12
  let phys := (← s.paging.load64 (pt + 8 * ptEntry)) % 2 ^ 10
  let paging ← s.paging.store64 pt (pt - pt % 2)
  let pmm ← clearFrame paging.pmm (physicalToFrame phys)
  let paging ← paeUnmap { paging with pmm := pmm } addr
  return { s with paging := paging }

/-- What `pae_page_free` is to do with the page of `addr` of the VMM at `v`. -/
structure FreesPaePage (s : VmmState) (v addr : ℕ) (t : VmmState) : Prop where
  unmapped : t.paging.translation addr = none
  frame : ∃ f, s.paging.walk64 addr = some (256 + f) ∧ s.paging.pmm.Writes f false t.paging.pmm
  range : ∃ tr tr', Represents s.nodes (s.tree v) tr ∧ Represents t.nodes (t.tree v) tr' ∧
    (ranges tr').Perm ((pageOf addr, 4096) :: ranges tr)
  others : ∀ a < 2 ^ 32, pageOf a ≠ pageOf addr → t.paging.translation a = s.paging.translation a

variable {s t : VmmState} {v addr : ℕ}

lemma paePageFree_paging (h : paePageFree s v addr = .ok t) : ∃ p, t = { s with paging := p } := by
  obtain ⟨phys, -, h⟩ := bind_eq_ok.mp h
  obtain ⟨p₁, -, h⟩ := bind_eq_ok.mp h
  obtain ⟨pmm, -, h⟩ := bind_eq_ok.mp h
  obtain ⟨p₂, -, h⟩ := bind_eq_ok.mp h
  exact ⟨p₂, (Except.ok.inj h).symm⟩

/-- `pae_page_free` calls no function that knows the free tree, so no page ever comes back to it. -/
theorem paePageFree_never (s : VmmState) (v addr : ℕ) : ¬ ∃ t, paePageFree s v addr = .ok t ∧ FreesPaePage s v addr t := by
  rintro ⟨t, ht, hfrees⟩
  obtain ⟨p, rfl⟩ := paePageFree_paging ht
  obtain ⟨tr, tr', htr, htr', hranges⟩ := hfrees.range
  obtain rfl := htr.unique htr'
  have hlen := hranges.length_eq
  rw [List.length_cons] at hlen
  omega

/-- Directories for the last two gigabytes, with a table each for the pages from 0x8C000000 and 0xCC000000 on; in the first
of them one page is mapped. -/
def twoGigabytes : Paging where
  phys := fun f i =>
    if f = 1 then if i = 1022 then 0x1003 else if i = 192 then 0x2003 else 0
    else if f = 3 then if i = 1022 then 0x3003 else if i = 192 then 0x4003 else 0
    else if f = 4 ∧ i = 0 then 0x9003 else 0
  pmm := ⟨fun _ => 0, NUM_FRAMES⟩
  cr3 := 0
  pdpt := fun i => if i = 3 then 0x1001 else if i = 2 then 0x3001 else 0
  maxBitExtension := 36

/-- A page is allocated and freed: the free tree is not told, and a page of the third gigabyte is gone. -/
theorem paePageFree_loses : ∃ s t, vmmPageAlloc 4 { freshKernel with paging := twoGigabytes } 0x1000 4096 3 0 true =
      .ok (0xCC000000, s) ∧
    paePageFree s 0x1000 0xCC000000 = .ok t ∧ t.nodes = s.nodes ∧ t.vmms = s.vmms ∧ s.paging.walk64 0x8C000000 = some 9 ∧
    t.paging.walk64 0x8C000000 = none ∧ ¬ FreesPaePage s 0x1000 0xCC000000 t := by
  obtain ⟨⟨r, s, t⟩, hrun, hobs⟩ := exists_of_toOption_map
    (x := vmmPageAlloc 4 { freshKernel with paging := twoGigabytes } 0x1000 4096 3 0 true >>= fun p =>
      paePageFree p.2 0x1000 p.1 >>= fun t => .ok (p.1, p.2, t))
    (g := fun q => (q.1, q.2.1.paging.walk64 0x8C000000, q.2.2.paging.walk64 0x8C000000)) (c := (0xCC000000, some 9, none))
    (by decide +kernel)
  obtain ⟨⟨r, s⟩, halloc, hrun⟩ := bind_eq_ok.mp hrun
  obtain ⟨t, hfree, hrun⟩ := bind_eq_ok.mp hrun
  obtain ⟨rfl, hrest⟩ := Prod.mk.inj (Except.ok.inj hrun)
  obtain ⟨rfl, rfl⟩ := Prod.mk.inj hrest
  obtain ⟨rfl, hwalk⟩ := Prod.mk.inj hobs
  obtain ⟨hbefore, hafter⟩ := Prod.mk.inj hwalk
  dsimp only at halloc hfree hbefore hafter
  obtain ⟨p, rfl⟩ := paePageFree_paging hfree
  refine ⟨s, _, halloc, hfree, rfl, rfl, hbefore, hafter, fun hfrees => ?_⟩
  have hsame := hfrees.others 0x8C000000 (by norm_num) (by decide)
  rw [Paging.walk64_eq (by norm_num), hsame, ← Paging.walk64_eq (by norm_num)] at hafter
  exact absurd (hbefore.symm.trans hafter) (Option.some_ne_none 9)

end WordOS.Memory
