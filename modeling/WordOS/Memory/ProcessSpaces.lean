import WordOS.Memory.AddressSpaces

/-! The allocator of `vmm.c` and the memory of `create_process` in the terms of `AddressSpaces`. -/

namespace WordOS.Memory.AddressSpaces

open Machine Lib.Runs Paging

variable {s : Processes} {q : Paging} {x : Views} {t u : Spaces} {y : VmmState}
  {virt phys flags base i n length cvmm fuel r v esp : ℕ}

/-- What neither makes a process nor switches to another. -/
def Op.isLocal : Op → Bool
  | .create _ _ => false
  | .switch _ => false
  | _ => true

/-- An address in one of the parts, and not in a window. -/
def InPart (loaded : Option ℕ) (virt : ℕ) : Prop := pdIndexOf virt ≠ 511 ∧ ∃ part, partOf loaded virt = some part

/-- A run on behalf of the process that is loaded leads to `t`. -/
def Extends (s : Processes) (t : Spaces) : Prop :=
  ∃ ops held, Run Step s ops ⟨t, s.made, s.loaded, held⟩ ∧ ∀ op ∈ ops, op.isLocal

namespace Extends

lemma refl (s : Processes) : Extends s s.spaces := ⟨[], s.held, .nil s, by simp⟩

lemma trans (h : Extends s t) (h' : ∀ held, Extends ⟨t, s.made, s.loaded, held⟩ u) : Extends s u := by
  obtain ⟨ops, held, hrun, hops⟩ := h
  obtain ⟨ops', held', hrun', hops'⟩ := h' held
  refine ⟨ops ++ ops', held', hrun.append hrun', fun op hop => ?_⟩
  rcases List.mem_append.mp hop with hop | hop
  · exact hops op hop
  · exact hops' op hop

lemma other (ht : t.vmm.paging = s.paging) (hd : ∀ v, directoriesOf (t.vmm.vmms v) = directoriesOf (s.vmm v)) :
    Extends s t :=
  ⟨[.other], s.held, .single (.other ht hd), by simp [Op.isLocal]⟩

lemma alloc {p : ℕ} {pmm : Pmm} (ha : allocPhysPage s.paging.pmm = .ok (p, pmm)) :
    Extends s (s.spaces.withPaging { s.paging with pmm := pmm }) :=
  ⟨[.alloc], p :: s.held, .single (.alloc ha), by simp [Op.isLocal]⟩

lemma mmap (hp : InPart s.loaded virt) (hv : virt < 2 ^ 32) (hf : flags < 4096) (hm : paeMmap s.paging phys virt flags = .ok q) :
    Extends s (s.spaces.withPaging q) := by
  obtain ⟨hj, part, hpart⟩ := hp
  exact ⟨[.mmap phys virt flags], s.held, .single (.mmap hpart hv hj hf hm), by simp [Op.isLocal]⟩

end Extends

lemma mapPages_run {rootPd : ℕ} (hf : flags < 4096) (hb : ∀ k < n, InPart s.loaded (u32 (base + (i + 4096 * k))))
    (hm : mapPages rootPd base phys flags true n i s.paging = .ok q) : Extends s (s.spaces.withPaging q) := by
  induction n generalizing s i with
  | zero =>
    obtain rfl := Except.ok.inj hm
    exact .refl s
  | succ n ih =>
    have hpart : InPart s.loaded (u32 (base + i)) := hb 0 (Nat.succ_pos n)
    have hlt : u32 (base + i) < 2 ^ 32 := Nat.mod_lt _ (by norm_num)
    have hrest : ∀ k < n, InPart s.loaded (u32 (base + (i + 4096 + 4096 * k))) := fun k hk => by
      have := hb (k + 1) (by omega)
      rwa [show i + 4096 * (k + 1) = i + 4096 + 4096 * k by ring] at this
    rw [mapPages] at hm
    by_cases h0 : phys = 0
    · simp only [if_pos h0, if_true, pure_eq, ok_bind] at hm
      obtain ⟨⟨p, pmm⟩, ha, hm⟩ := bind_eq_ok.mp hm
      obtain ⟨y, hy, hm⟩ := bind_eq_ok.mp hm
      refine (Extends.alloc ha).trans fun held => ?_
      have hmap := Extends.mmap (s := ⟨s.spaces.withPaging { s.paging with pmm := pmm }, s.made, s.loaded, held⟩) hpart hlt hf hy
      refine hmap.trans fun held' => ?_
      exact ih (s := ⟨s.spaces.withPaging y, s.made, s.loaded, held'⟩) hrest hm
    · simp only [if_neg h0, if_true, pure_eq, ok_bind] at hm
      obtain ⟨y, hy, hm⟩ := bind_eq_ok.mp hm
      exact (Extends.mmap hpart hlt hf hy).trans fun held => ih (s := ⟨s.spaces.withPaging y, s.made, s.loaded, held⟩) hrest hm

lemma vmmPageAlloc_run (hf : flags < 4096)
    (hb : ∀ base y, vmmTakeRange fuel s.spaces.vmm cvmm (bytePgroundup (u32 length)) = .ok (some base, y) →
      ∀ k < bytePgroundup (u32 length) / 4096, InPart s.loaded (u32 (base + 4096 * k)))
    (ha : vmmPageAlloc fuel s.spaces.vmm cvmm length flags phys true = .ok (r, y)) : Extends s { s.spaces with vmm := y } := by
  obtain ⟨⟨o, u⟩, htake, ha⟩ := bind_eq_ok.mp ha
  obtain ⟨hp, -⟩ := vmmTakeRange_frame (w := 0) htake
  have hother : Extends s { s.spaces with vmm := u } := .other hp fun v => vmmTakeRange_directories htake
  cases o with
  | none =>
    obtain ⟨-, rfl⟩ := Prod.mk.inj (Except.ok.inj ha)
    exact hother
  | some base =>
    obtain ⟨q, hq, ha⟩ := bind_eq_ok.mp ha
    obtain ⟨-, rfl⟩ := Prod.mk.inj (Except.ok.inj ha)
    have hrange : ∀ k < bytePgroundup (u32 length) / 4096, InPart s.loaded (u32 (base + (0 + 4096 * k))) := fun k hk => by
      rw [Nat.zero_add]
      exact hb base u htake k hk
    exact hother.trans fun held => mapPages_run (s := ⟨{ s.spaces with vmm := u }, s.made, s.loaded, held⟩) hf hrange hq

lemma paeAlloc_run (hphys : phys % 4096 = 0) (hf : flags < 4096) (hr : InPart s.loaded r)
    (h : paeAlloc fuel s.spaces 4096 flags phys = .ok (r, t)) : Extends s t := by
  obtain ⟨⟨r', y⟩, ha, h⟩ := bind_eq_ok.mp h
  obtain ⟨rfl, rfl⟩ := Prod.mk.inj (Except.ok.inj h)
  refine vmmPageAlloc_run hf (fun base y hb k hk => ?_) ha
  have hround : bytePgroundup (u32 4096) = 4096 := by decide
  rw [hround] at hb hk
  obtain rfl : k = 0 := by omega
  rw [vmmPageAlloc, hround, hb, ok_bind] at ha
  obtain ⟨q, -, ha⟩ := bind_eq_ok.mp ha
  obtain ⟨hr', -⟩ := Prod.mk.inj (Except.ok.inj ha)
  rw [hphys, Nat.add_zero] at hr'
  rwa [Nat.mul_zero, Nat.add_zero, hr']

section

variable {β : Type} {f : Vmm → β} (hf : ∀ x r, f { x with root := r } = f x) {a : Spaces} {w : ℕ}
include hf

lemma vmmPageAlloc_frame {z : VmmState} {pae : Bool} (h : vmmPageAlloc fuel z cvmm length flags phys pae = .ok (r, y)) :
    f (y.vmms w) = f (z.vmms w) := by
  obtain ⟨⟨o, u⟩, htake, h⟩ := bind_eq_ok.mp h
  cases o with
  | none =>
    obtain ⟨-, rfl⟩ := Prod.mk.inj (Except.ok.inj h)
    exact vmmTakeRange_field hf htake
  | some base =>
    obtain ⟨q, hq, h⟩ := bind_eq_ok.mp h
    obtain ⟨-, rfl⟩ := Prod.mk.inj (Except.ok.inj h)
    exact (vmmTakeRange_field hf htake :)

lemma paeAlloc_frame (h : paeAlloc fuel a length flags phys = .ok (r, t)) : f (t.vmm.vmms w) = f (a.vmm.vmms w) := by
  obtain ⟨⟨r', y⟩, ha, h⟩ := bind_eq_ok.mp h
  obtain ⟨-, rfl⟩ := Prod.mk.inj (Except.ok.inj h)
  exact (vmmPageAlloc_frame hf ha :)

lemma paeKalloc_frame (h : paeKalloc fuel a length flags phys = .ok (r, t)) : f (t.vmm.vmms w) = f (a.vmm.vmms w) := by
  obtain ⟨⟨r', y⟩, ha, h⟩ := bind_eq_ok.mp h
  obtain ⟨-, rfl⟩ := Prod.mk.inj (Except.ok.inj h)
  exact (vmmPageAlloc_frame hf ha :)

end

/-- The page of the VMM in the process, by where its slots begin, and that of the stack, by the stack pointer. -/
structure Entered (v esp : ℕ) (t : Spaces) : Prop where
  store : InPart (some v) (u32 ((t.vmm.vmms v).vmObjStoreAddr + 2 ^ 32 - SIZEOF_VMM))
  stack : InPart (some v) (u32 (esp + 2 ^ 32 - 0xFDF))

lemma enterPdptes_parts {a : Spaces} (h : enterPdptes fuel a v phys = .ok (esp, t)) : ∃ pspace b c top,
    paeAlloc fuel (setCurrentVmm a v) 4096 0x3 (u32 phys) = .ok (pspace, b) ∧ paeAlloc fuel c 4096 0x3 0 = .ok (top, t) ∧
      c.vmm.paging = b.vmm.paging ∧ c.currentVmm = v ∧ (∀ w, directoriesOf (c.vmm.vmms w) = directoriesOf (b.vmm.vmms w)) ∧
      (c.vmm.vmms v).vmObjStoreAddr = u32 (pspace + SIZEOF_VMM) ∧ esp = u32 (u32 (top + 0xFFF) + 2 ^ 32 - 0x20) := by
  obtain ⟨⟨pspace, b⟩, hb, h⟩ := bind_eq_ok.mp h
  obtain ⟨⟨stack, d⟩, hs, h⟩ := bind_eq_ok.mp h
  obtain ⟨rfl, rfl⟩ := Prod.mk.inj (Except.ok.inj h)
  obtain ⟨⟨top, c⟩, hc, h⟩ := bind_eq_ok.mp hs
  obtain ⟨rfl, rfl⟩ := Prod.mk.inj (Except.ok.inj h)
  refine ⟨pspace, b, _, top, hb, hc, rfl, rfl, fun w => ?_, ?_, rfl⟩
  · by_cases hw : w = v
    · subst hw
      simp [Spaces.setVmm, directoriesOf]
    · simp [Spaces.setVmm, directoriesOf, hw]
  · simp [Spaces.setVmm]

lemma paeAlloc_lt {a : Spaces} (h : paeAlloc fuel a length flags phys = .ok (r, t)) : r < 2 ^ 32 := by
  obtain ⟨⟨r', y⟩, ha, h⟩ := bind_eq_ok.mp h
  obtain ⟨rfl, -⟩ := Prod.mk.inj (Except.ok.inj h)
  obtain ⟨⟨o, u⟩, -, ha⟩ := bind_eq_ok.mp ha
  cases o with
  | none =>
    obtain ⟨rfl, -⟩ := Prod.mk.inj (Except.ok.inj ha)
    norm_num
  | some base =>
    obtain ⟨q, -, ha⟩ := bind_eq_ok.mp ha
    obtain ⟨rfl, -⟩ := Prod.mk.inj (Except.ok.inj ha)
    exact Nat.mod_lt _ (by norm_num)

lemma enterPdptes_run (hphys : phys % 4096 = 0) (h : enterPdptes fuel s.spaces v phys = .ok (esp, t)) (he : Entered v esp t) :
    Extends ⟨setCurrentVmm s.spaces v, s.made, some v, s.held⟩ t := by
  obtain ⟨pspace, b, c, top, hb, hc, hcp, hcv, hcd, hcs, hesp⟩ := enterPdptes_parts h
  have hstore : u32 ((t.vmm.vmms v).vmObjStoreAddr + 2 ^ 32 - SIZEOF_VMM) = pspace := by
    have hlt := paeAlloc_lt hb
    rw [paeAlloc_frame (f := Vmm.vmObjStoreAddr) (fun _ _ => rfl) hc, hcs, SIZEOF_VMM, u32, u32]
    omega
  have hstack : u32 (esp + 2 ^ 32 - 0xFDF) = top := by
    have hlt := paeAlloc_lt hc
    rw [hesp, u32, u32, u32]
    omega
  have hpage : u32 phys % 4096 = 0 := by
    rw [u32]
    omega
  have hs := paeAlloc_run (s := ⟨setCurrentVmm s.spaces v, s.made, some v, s.held⟩) hpage (by norm_num) (hstore ▸ he.store) hb
  refine hs.trans fun held => ?_
  have hother : Extends ⟨b, s.made, some v, held⟩ c := .other hcp hcd
  refine hother.trans fun held' => ?_
  exact paeAlloc_run (s := ⟨c, s.made, some v, held'⟩) (Nat.zero_mod _) (by norm_num) (hstack ▸ he.stack) hc

lemma setCurrentVmm_vmms {a : Spaces} : (setCurrentVmm a v).vmm.vmms = a.vmm.vmms := by
  rw [setCurrentVmm]
  dsimp only
  split_ifs <;> rfl

lemma leavePdptes_vmms {a : Spaces} : (leavePdptes a v).vmm.vmms = a.vmm.vmms := by
  rw [leavePdptes]
  split_ifs
  · rfl
  · exact setCurrentVmm_vmms

lemma recordPdptes_directories {a : Spaces} {w : ℕ} (h : recordPdptes fuel a = .ok (v, phys, t)) (hw : w ≠ v) :
    directoriesOf (t.vmm.vmms w) = directoriesOf (a.vmm.vmms w) := by
  obtain ⟨low, mid, high, pmm₁, pmm₂, pmm₃, pmm₄, r, s₁, y, p, -, -, -, -, hk, hr0, hc, -, -, -, -, hto⟩ := recordPdptes_parts h
  obtain ⟨rfl, hcreate⟩ := createVmm_directories hr0 hc
  rw [hto w hw, hcreate w hw, paeKalloc_frame (f := directoriesOf) (fun _ _ => rfl) hk]
  rfl

lemma enterPdptes_directories {a : Spaces} {w : ℕ} (h : enterPdptes fuel a v phys = .ok (esp, t)) :
    directoriesOf (t.vmm.vmms w) = directoriesOf (a.vmm.vmms w) := by
  obtain ⟨pspace, b, c, top, hb, hc, -, -, hcd, -, -⟩ := enterPdptes_parts h
  rw [paeAlloc_frame (f := directoriesOf) (fun _ _ => rfl) hc, hcd, paeAlloc_frame (f := directoriesOf) (fun _ _ => rfl) hb,
    setCurrentVmm_vmms]

/-- What is loaded when a process has been made while `parent` was the current VMM. -/
def loadedAfter (made : List ℕ) (v parent : ℕ) : Option ℕ := if parent ≠ 0 ∧ parent ∈ made then some parent else some v

def leaving (parent : ℕ) : List Op := if parent = 0 then [] else [.switch parent]

lemma leavePdptes_run {w : ℕ} (hl : s.loaded = some v) (hparent : w ∈ s.made ∨ (s.vmm w).pdLow = 0) :
    Run Step s (leaving w) ⟨leavePdptes s.spaces w, s.made, loadedAfter s.made v w, s.held⟩ := by
  by_cases h0 : w = 0
  · rw [leaving, if_pos h0, leavePdptes, if_pos h0, loadedAfter, if_neg (by simp [h0]), ← hl]
    exact .nil s
  · have hstep : Step s (.switch w) _ := .switch hparent
    rw [leaving, if_neg h0, leavePdptes, if_neg h0, loadedAfter]
    rw [hl] at hstep
    by_cases hm : w ∈ s.made
    · rw [if_pos ⟨h0, hm⟩]
      rw [if_pos hm] at hstep
      exact .single hstep
    · rw [if_neg (by simp [hm])]
      rw [if_neg hm] at hstep
      exact .single hstep

/-- The memory of a new process: it is made, switched to and given its first two pages, and what was the current VMM is current
again. -/
lemma createProcessSpace_run (hx : Holds s x) (h : createProcessSpace fuel s.spaces = .ok (v, esp, t)) (hv : v ∉ s.made)
    (hi : pdpteOf v = 3) (hj : pdIndexOf v ≠ 511) (he : Entered v esp t)
    (hparent : s.spaces.currentVmm ∈ s.made ∨ (s.vmm s.spaces.currentVmm).pdLow = 0) :
    ∃ phys ops held, Run Step s (.create v phys :: .switch v :: ops ++ leaving s.spaces.currentVmm)
      ⟨t, v :: s.made, loadedAfter (v :: s.made) v s.spaces.currentVmm, held⟩ ∧ ∀ op ∈ ops, op.isLocal := by
  obtain ⟨⟨v', phys, a⟩, ha, h⟩ := bind_eq_ok.mp h
  obtain ⟨⟨esp', b⟩, hb, h⟩ := bind_eq_ok.mp h
  obtain ⟨rfl, hrest⟩ := Prod.mk.inj (Except.ok.inj h)
  obtain ⟨rfl, rfl⟩ := Prod.mk.inj hrest
  have hcreate : Step s (.create v' phys) ⟨a, v' :: s.made, s.loaded, phys :: s.held⟩ := .create ha hv hi hj
  have hentered : Entered v' esp' b := ⟨leavePdptes_vmms ▸ he.store, he.stack⟩
  have hphys : phys % 4096 = 0 := by
    obtain ⟨g, -, rfl, -⟩ := (hx.step hcreate).held phys List.mem_cons_self
    omega
  have hswitch : Step ⟨a, v' :: s.made, s.loaded, phys :: s.held⟩ (.switch v')
      ⟨setCurrentVmm a v', v' :: s.made, some v', phys :: s.held⟩ := by
    have hs := Step.switch (s := ⟨a, v' :: s.made, s.loaded, phys :: s.held⟩) (v := v') (.inl List.mem_cons_self)
    rw [if_pos List.mem_cons_self] at hs
    exact hs
  obtain ⟨ops, held, hrun, hops⟩ := enterPdptes_run (s := ⟨a, v' :: s.made, s.loaded, phys :: s.held⟩) hphys hb hentered
  have hback : s.spaces.currentVmm ∈ v' :: s.made ∨ (b.vmm.vmms s.spaces.currentVmm).pdLow = 0 := by
    by_cases hw : s.spaces.currentVmm = v'
    · exact .inl (hw ▸ List.mem_cons_self)
    · refine hparent.imp (List.mem_cons_of_mem _) fun h0 => ?_
      have hd := (enterPdptes_directories (w := s.spaces.currentVmm) hb).trans (recordPdptes_directories ha hw)
      exact (congrArg Prod.fst hd).trans h0
  have hleave := leavePdptes_run (s := ⟨b, v' :: s.made, some v', held⟩) rfl hback
  exact ⟨phys, ops, held, (Run.cons hcreate (.cons hswitch hrun)).append hleave, hops⟩

end WordOS.Memory.AddressSpaces
