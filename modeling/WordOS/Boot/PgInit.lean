import WordOS.Boot.BootTables
import WordOS.Lib.Loops
import WordOS.Memory.PdTranslation
import WordOS.Multiboot.Rsdp

/-! The kernel's own tables: `pg_init` of `paging.c`, and `kernel_main` up to its `memory_map`. -/

namespace WordOS.Boot

open Machine Memory Paging Multiboot Lib.Loops

/-- `PHYSADDR(x)` -/
def physaddr (x : ℕ) : ℕ := u32 (x + (2 ^ 32 - 0xC0000000))

def newinitPd (s : Paging) (pd : ℕ) : Exec Paging := do
  let s ← countUp (fun i s => s.store32 (pd + 4 * i) 0x2) 1024 0 s
  -- the number taken from the pointer counts words
  s.store32 (pd + 4 * 1023) (u32 (pd + 4 * (2 ^ 32 - 0xC0000000)) ||| 3)

/-- `memcpy` of `n` words. -/
def copyWords (s : Paging) (s1 s2 n : ℕ) : Exec Paging :=
  countUp (fun i s => do s.store32 (s1 + 4 * i) (← s.load32 (s2 + 4 * i))) n 0 s

/-- The loop of `init_kpt`, with the variables `j` and `flag`. -/
def initKptBody (pt initPages i : ℕ) : Paging × ℕ × ℕ → Exec (Paging × ℕ × ℕ)
  | (s, j, flag) => do
    let flag := if 260 + initPages < i then 0x2 else flag
    let entry ← s.load32 (pt + 4 * i)
    let s ← if entry % 4 = 0 then s.store32 (pt + 4 * i) (u32 (j * 0x1000 + 0x100000) ||| flag) else .ok s
    return (s, j + 1, flag)

namespace Image

variable (b : Image)

def initPages (tagSize : ℕ) : ℕ := u32 (b.kernelEnd - 0x100000 + pgroundup NUM_FRAMES + tagSize) / 4096

def initKpt (s : Paging) (pt tagSize : ℕ) : Exec Paging := do
  let (s, _, _) ← countUp (initKptBody pt (b.initPages tagSize)) 768 256 (s, 0, 0x3)
  return s

def pgInit (s : Paging) (entryPd tagSize : ℕ) : Exec Paging := do
  let kernelPd := BOOTLOC + 4096 * b.kernelPd
  let kernelPt := BOOTLOC + 4096 * b.kernelPt
  let s ← newinitPd s kernelPd
  let s ← memoryMap s (physaddr entryPd / 4096) (pgrounddown (physaddr tagSize)) (pgrounddown tagSize) 0x3
  let s ← s.clear32 kernelPd (1024 / 4)
  let s ← copyWords s kernelPt (u32 (entryPd + 4 * 0xC0000000)) 1024
  let s ← b.initKpt s kernelPt (← s.load32 tagSize)
  let s ← s.store32 (kernelPd + 4 * 768) (physaddr kernelPt ||| 3)
  let s ← s.store32 (kernelPd + 4 * 1023) (physaddr kernelPd ||| 3)
  let s ← memoryMap s (physaddr kernelPd / 4096) (pgrounddown (physaddr tagSize)) (pgrounddown tagSize) 0x3
  return { s with cr3 := physaddr kernelPd / 4096 }

/-- `_start`, and `kernel_main` up to its own call of `memory_map`. -/
def enterKernel (s : Paging) (multibootLoc : ℕ) : Exec Paging := do
  let s ← b.start s
  if multibootLoc % 8 ≠ 0 then return s
  let tagSize := u32 (multibootLoc + 0xC0000000)
  let s ← b.pgInit s (BOOTLOC + 4096 * b.bootPageDirectory) tagSize
  memoryMap s s.cr3 (pgrounddown (physaddr tagSize)) (pgrounddown tagSize) 0x3

/-- What `kernel_pt` translates: the pages of the image and those behind it, but for two entries of `boot_page_directory` that
stand in the way, and the page of the boot information. -/
def kernelPage (size tag k : ℕ) : Option ℕ :=
  if k = tag then some k
  else if k = 768 then some b.bootPageTable1
  else if k = 1023 then some b.bootPageDirectory
  else if 256 ≤ k ∧ k ≤ 260 + b.initPages size then some k
  else none

end Image

/-- `t` is `s` with the words from `i` to `j` of frame `f` replaced. -/
def Row (s : Paging) (f : ℕ) (h : ℕ → ℕ) (i j : ℕ) (t : Paging) : Prop :=
  t = { s with phys := t.phys } ∧ ∀ g k, t.phys g k = if g = f ∧ i ≤ k ∧ k < j then h k else s.phys g k

/-- The tables of the boot are in use, and the frames `fs` are where they lie in the higher half. -/
structure Booted (b : Image) (fs : List ℕ) (s : Paging) : Prop where
  cr3 : s.cr3 = b.bootPageDirectory
  higher : InHigherHalf s b.bootPageTable1
  pages : ∀ f ∈ fs, f < 1024 ∧ target (s.phys b.bootPageTable1 f) = some f

variable {b : Image} {s t u : Paging} {fs : List ℕ} {h : ℕ → ℕ} {f g i j k n v x : ℕ}

namespace Row

lemma refl (s : Paging) (f : ℕ) (h : ℕ → ℕ) (i : ℕ) : Row s f h i i s :=
  ⟨rfl, fun g k => (if_neg (by omega)).symm⟩

lemma skip (hr : Row s f h i j t) (hx : s.phys f j = h j) : Row s f h i (j + 1) t := by
  refine ⟨hr.1, fun g k => ?_⟩
  rw [hr.2]
  by_cases hk : g = f ∧ k = j
  · obtain ⟨rfl, rfl⟩ := hk
    rw [if_neg (by omega), hx]
    split_ifs <;> rfl
  · exact if_congr (by omega) rfl rfl

lemma step (hr : Row s f h i j t) (hij : i ≤ j) (hx : u32 x = h j) : Row s f h i (j + 1) (t.setWord f j x) := by
  refine ⟨?_, fun g k => ?_⟩
  · rw [setWord, hr.1]
  · by_cases hk : g = f ∧ k = j
    · obtain ⟨rfl, rfl⟩ := hk
      rw [phys_setWord_self, if_pos ⟨rfl, hij, Nat.lt_succ_self _⟩, hx]
    · rw [phys_setWord fun hg hkj => hk ⟨hg, hkj⟩, hr.2]
      exact if_congr (by omega) rfl rfl

lemma frame (hr : Row s f h i j t) (hg : g ≠ f) (k : ℕ) : t.phys g k = s.phys g k :=
  (hr.2 g k).trans (if_neg fun h => hg h.1)

lemma word (hr : Row s f h i j t) (hk : i ≤ k) (hk' : k < j) : t.phys f k = h k := (hr.2 f k).trans (if_pos ⟨rfl, hk, hk'⟩)

lemma rest (hr : Row s f h i j t) (hk : ¬ (i ≤ k ∧ k < j)) : t.phys f k = s.phys f k :=
  (hr.2 f k).trans (if_neg fun h => hk h.2)

lemma overwrite (hr : Row s f h i j t) (hk : i ≤ k) (hk' : k < j) (x : ℕ) :
    Row s f (Function.update h k (u32 x)) i j (t.setWord f k x) := by
  refine ⟨by rw [setWord, hr.1], fun g n => ?_⟩
  by_cases hn : g = f ∧ n = k
  · obtain ⟨rfl, rfl⟩ := hn
    rw [phys_setWord_self, if_pos ⟨rfl, hk, hk'⟩, Function.update_self]
  · rw [phys_setWord fun hg hnk => hn ⟨hg, hnk⟩, hr.2]
    split_ifs with hrow
    · rw [Function.update_of_ne fun hnk => hn ⟨hrow.1, hnk⟩]
    · rfl

lemma cr3 (hr : Row s f h i j t) : t.cr3 = s.cr3 := by rw [hr.1]

lemma pmm (hr : Row s f h i j t) : t.pmm = s.pmm := by rw [hr.1]

lemma booted (hr : Row s f h i j t) (hs : Booted b fs s) (hd : f ≠ b.bootPageDirectory) (ht : f ≠ b.bootPageTable1) :
    Booted b fs t := by
  have hdir : t.cr3 = b.bootPageDirectory := hr.cr3.trans hs.cr3
  refine ⟨hdir, fun j hj => ?_, fun g hg => ⟨(hs.pages g hg).1, ?_⟩⟩
  · rw [table32_eq hj, hdir, hr.frame hd.symm, ← hs.cr3, ← table32_eq hj]
    exact hs.higher j hj
  · rw [hr.frame ht.symm]
    exact (hs.pages g hg).2

end Row

namespace Booted

lemma table (hs : Booted b fs s) : s.table32 768 = some b.bootPageTable1 := hs.higher 768 (by norm_num)

lemma self (hs : Booted b fs s) : s.table32 1023 = some s.cr3 := hs.higher 1023 (by norm_num)

lemma load (hs : Booted b fs s) (hf : f ∈ fs) (hk : k < 1024) : s.load32 (BOOTLOC + 4096 * f + 4 * k) = .ok (s.phys f k) :=
  load32_higher hs.table (hs.pages f hf).1 hk (hs.pages f hf).2

lemma store (hs : Booted b fs s) (hf : f ∈ fs) (hk : k < 1024) (x : ℕ) :
    s.store32 (BOOTLOC + 4096 * f + 4 * k) x = .ok (s.setWord f k x) :=
  store32_higher hs.table (hs.pages f hf).1 hk (hs.pages f hf).2

lemma setWord (hs : Booted b fs s) (hd : f ≠ b.bootPageDirectory) (ht : f ≠ b.bootPageTable1) (k x : ℕ) :
    Booted b fs (s.setWord f k x) :=
  ((Row.refl s f (fun _ => u32 x) k).step le_rfl rfl).booted hs hd ht

/-- A loop over the words of a frame that is neither of the two tables. -/
lemma rowLoop {body : ℕ → Paging → Exec Paging} (hs : Booted b fs s) (hd : f ≠ b.bootPageDirectory) (ht : f ≠ b.bootPageTable1)
    (hbody : ∀ j t, i ≤ j → j < i + n → Booted b fs t → (∀ g ≠ f, t.phys g = s.phys g) →
      ∃ x, body j t = .ok (t.setWord f j x) ∧ u32 x = h j) :
    ∃ t, countUp body n i s = .ok t ∧ Row s f h i (i + n) t := by
  refine countUp_ok (I := Row s f h i) (fun j t hj hlt hr => ?_) (.refl s f h i)
  obtain ⟨x, hx, hu⟩ := hbody j t hj hlt (hr.booted hs hd ht) fun g hg => funext (hr.frame hg)
  exact ⟨_, hx, hr.step hj hu⟩

lemma clear (hs : Booted b fs s) (hf : f ∈ fs) (hd : f ≠ b.bootPageDirectory) (ht : f ≠ b.bootPageTable1) (hn : n ≤ 1024) :
    ∃ t, s.clear32 (BOOTLOC + 4096 * f) n = .ok t ∧ Row s f (fun _ => 0) 0 n t := by
  have hloop : ∀ n i (u : Paging), u.clear32 (BOOTLOC + 4096 * f + 4 * i) n =
      countUp (fun i s => s.store32 (BOOTLOC + 4096 * f + 4 * i) 0) n i u := by
    intro n
    induction n with
    | zero => exact fun i u => rfl
    | succ n ih =>
      intro i u
      rw [clear32, countUp, show BOOTLOC + 4096 * f + 4 * i + 4 = BOOTLOC + 4096 * f + 4 * (i + 1) by ring]
      exact congrArg _ (funext fun u => ih (i + 1) u)
  obtain ⟨t, hrun, hr⟩ := hs.rowLoop (h := fun _ => 0) (i := 0) (n := n) hd ht fun j u _ hj hu _ =>
    ⟨0, hu.store hf (by omega) 0, rfl⟩
  refine ⟨t, (hloop n 0 s).trans hrun, ?_⟩
  rwa [Nat.zero_add] at hr

lemma newinitPd (hs : Booted b fs s) (hf : f ∈ fs) (hd : f ≠ b.bootPageDirectory) (ht : f ≠ b.bootPageTable1) :
    ∃ x t, newinitPd s (BOOTLOC + 4096 * f) = .ok t ∧ Row s f (Function.update (fun _ => 2) 1023 x) 0 1024 t := by
  obtain ⟨u, hrun, hr⟩ := hs.rowLoop (h := fun _ => 2) (i := 0) (n := 1024) hd ht fun j u _ hj hu _ =>
    ⟨2, hu.store hf (by omega) 2, rfl⟩
  have hlast := (hr.booted hs hd ht).store hf (show 1023 < 1024 by norm_num)
    (u32 (BOOTLOC + 4096 * f + 4 * (2 ^ 32 - 0xC0000000)) ||| 3)
  have hrow := hr.overwrite (k := 1023) (by norm_num) (by norm_num)
    (u32 (BOOTLOC + 4096 * f + 4 * (2 ^ 32 - 0xC0000000)) ||| 3)
  exact ⟨_, _, by rw [Boot.newinitPd, hrun, ok_bind]; exact hlast, hrow⟩

lemma copyWords (hs : Booted b fs s) (hf : f ∈ fs) (hg : g ∈ fs) (hfg : g ≠ f) (hd : f ≠ b.bootPageDirectory)
    (ht : f ≠ b.bootPageTable1) (hsmall : ∀ k < 1024, s.phys g k < 2 ^ 32) :
    ∃ t, copyWords s (BOOTLOC + 4096 * f) (BOOTLOC + 4096 * g) 1024 = .ok t ∧ Row s f (s.phys g) 0 1024 t := by
  refine hs.rowLoop (i := 0) (n := 1024) hd ht fun j u _ hj hu hrest => ⟨s.phys g j, ?_, u32_eq (hsmall j (by omega))⟩
  rw [hu.load hg (by omega), ok_bind, hu.store hf (by omega), hrest g hfg]

/-- An entry without the bits that a pass tests becomes that of the page with its own number. -/
def kptWord (initPages : ℕ) (old : ℕ → ℕ) (k : ℕ) : ℕ :=
  if old k % 4 = 0 then 4096 * k ||| (if 260 + initPages < k then 2 else 3) else old k

/-- The state of the loop of `init_kpt` at its test with `i`. -/
structure KptPass (s : Paging) (f initPages i : ℕ) (r : Paging × ℕ × ℕ) : Prop where
  row : Row s f (kptWord initPages (s.phys f)) 256 i r.1
  count : r.2.1 + 256 = i
  flag : r.2.2 = 0x3 ∨ r.2.2 = 0x2 ∧ 260 + initPages < i

lemma initKptBody {r : Paging × ℕ × ℕ} (hs : Booted b fs s) (hf : f ∈ fs) (hd : f ≠ b.bootPageDirectory)
    (ht : f ≠ b.bootPageTable1) (hi : 256 ≤ i) (hlt : i < 1024) (hpass : KptPass s f n i r) :
    ∃ r', initKptBody (BOOTLOC + 4096 * f) n i r = .ok r' ∧ KptPass s f n (i + 1) r' := by
  obtain ⟨u, j, flag⟩ := r
  obtain ⟨hr, hcount, hflag⟩ := hpass
  dsimp only at hr hcount hflag
  have hu := hr.booted hs hd ht
  have hnow : (if 260 + n < i then 0x2 else flag) = if 260 + n < i then 2 else 3 := by
    split_ifs with hpast
    · rfl
    · exact hflag.resolve_right fun h => hpast h.2
  have hold : u.phys f i = s.phys f i := hr.rest fun h => absurd h.2 (lt_irrefl i)
  have hpage : u32 (j * 0x1000 + 0x100000) = 4096 * i := by
    rw [u32_eq (by omega)]
    omega
  have hlater : (if 260 + n < i then 2 else 3) = 0x3 ∨ (if 260 + n < i then 2 else 3) = 0x2 ∧ 260 + n < i + 1 := by
    split_ifs with hpast
    · exact .inr ⟨rfl, by omega⟩
    · exact .inl rfl
  have hnext : j + 1 + 256 = i + 1 := by omega
  rw [Boot.initKptBody]
  simp only [hnow, hu.load hf hlt, ok_bind, hold, hpage]
  by_cases hfree : s.phys f i % 4 = 0
  · have hword : u32 (4096 * i ||| if 260 + n < i then 2 else 3) = kptWord n (s.phys f) i := by
      rw [kptWord, if_pos hfree]
      exact u32_eq (Nat.or_lt_two_pow (by omega) (by split_ifs <;> norm_num))
    rw [if_pos hfree, hu.store hf hlt]
    exact ⟨_, rfl, hr.step hi hword, hnext, hlater⟩
  · rw [if_neg hfree]
    exact ⟨_, rfl, hr.skip (if_neg hfree).symm, hnext, hlater⟩

lemma initKpt (hs : Booted b fs s) (hf : f ∈ fs) (hd : f ≠ b.bootPageDirectory) (ht : f ≠ b.bootPageTable1) (size : ℕ) :
    ∃ t, b.initKpt s (BOOTLOC + 4096 * f) size = .ok t ∧ Row s f (kptWord (b.initPages size) (s.phys f)) 256 1024 t := by
  have hstart : KptPass s f (b.initPages size) 256 (s, 0, 0x3) := ⟨.refl s f _ 256, rfl, .inl rfl⟩
  obtain ⟨⟨t, j, flag⟩, hrun, hpass⟩ := countUp_ok (n := 768) (fun i r hi hlt hpass => hs.initKptBody hf hd ht hi hlt hpass) hstart
  exact ⟨t, by rw [Image.initKpt, hrun]; rfl, hpass.row⟩

lemma memoryMap {r virt phys : ℕ} (hs : Booted b fs s) (hr : Present (s.phys r 768)) (hv : pdOf virt = 768)
    (hp : u32 phys % 2 ^ 10 = 0) :
    memoryMap s r phys virt 0x3 = .ok (s.setWord b.bootPageTable1 (ptOf virt) (u32 phys ||| 0x3)) := by
  have hst := store32_self (x := u32 phys ||| 0x3) hs.self hs.table (ptOf_lt virt)
  rw [pdOf] at hv
  rw [Memory.memoryMap]
  simp only [hv, if_pos hr, ok_bind, if_neg (not_not_intro hp)]
  exact hst

end Booted

/-! The page of the boot information, in the first four megabytes. -/

variable {multibootLoc : ℕ}

lemma physaddr_higher (hx : x < 2 ^ 30) : physaddr (BOOTLOC + x) = x := by
  rw [physaddr, BOOTLOC, u32]
  omega

lemma tag_pointer (h8 : multibootLoc % 8 = 0) (hlow : multibootLoc < 2 ^ 22) : u32 (multibootLoc + 0xC0000000) =
    BOOTLOC + 4096 * (multibootLoc / 4096) + 4 * (multibootLoc % 4096 / 4) := by
  rw [u32_eq (by omega), BOOTLOC]
  omega

lemma pgrounddown_eq (hx : x < 2 ^ 32) : pgrounddown x = x - x % 1024 := by rw [pgrounddown, u32_eq hx]

lemma tag_page (hlow : multibootLoc < 2 ^ 22) : pdOf (pgrounddown (BOOTLOC + multibootLoc)) = 768 ∧
    ptOf (pgrounddown (BOOTLOC + multibootLoc)) = multibootLoc / 4096 := by
  have hlt : BOOTLOC + multibootLoc < 2 ^ 32 := by
    rw [BOOTLOC]
    omega
  rw [pgrounddown_eq hlt, pdOf, ptOf, u32_eq (by omega), BOOTLOC]
  omega

lemma tag_target (hlow : multibootLoc < 2 ^ 22) :
    target (u32 (u32 (pgrounddown multibootLoc) ||| 0x3)) = some (multibootLoc / 4096) := by
  obtain ⟨q, hq⟩ : ∃ q, pgrounddown multibootLoc = 2 ^ 10 * q := ⟨multibootLoc / 1024, by rw [pgrounddown_eq (by omega)]; omega⟩
  have hor : 2 ^ 10 * q ||| 3 = 2 ^ 10 * q + 3 := (Nat.two_pow_add_eq_or_of_lt (by norm_num) q).symm
  have hval := pgrounddown_eq (x := multibootLoc) (by omega)
  rw [hq, u32_eq (x := 2 ^ 10 * q) (by omega), hor, u32_eq (by omega), target_of_present (by rw [Present]; omega), frameOf]
  exact congrArg some (by omega)

/-- `memory_map` for the boot information goes to the tables in use, whichever directory it is given. -/
lemma Booted.mapTag {r : ℕ} (hs : Booted b fs s) (hr : Present (s.phys r 768)) (hlow : multibootLoc < 2 ^ 22) :
    ∃ x, Memory.memoryMap s r (pgrounddown multibootLoc) (pgrounddown (BOOTLOC + multibootLoc)) 0x3 =
        .ok (s.setWord b.bootPageTable1 (multibootLoc / 4096) x) ∧ target (u32 x) = some (multibootLoc / 4096) ∧
      Booted b (multibootLoc / 4096 :: fs) (s.setWord b.bootPageTable1 (multibootLoc / 4096) x) := by
  obtain ⟨hpd, hpt⟩ := tag_page hlow
  have hround : u32 (pgrounddown multibootLoc) % 2 ^ 10 = 0 := by
    rw [pgrounddown_eq (by omega), u32_eq (by omega)]
    omega
  have hmap := hs.memoryMap hr hpd hround
  rw [hpt] at hmap
  refine ⟨_, hmap, tag_target hlow, hs.cr3, fun j hj => ?_, fun f hf => ?_⟩
  · have hne : b.bootPageTable1 ≠ s.cr3 := by
      rw [hs.cr3]
      exact (Nat.lt_succ_self _).ne'
    rw [table32_setWord hne]
    exact hs.higher j hj
  · by_cases hft : f = multibootLoc / 4096
    · subst hft
      rw [phys_setWord_self]
      exact ⟨by omega, tag_target hlow⟩
    · rw [phys_setWord fun _ => hft]
      exact hs.pages f ((List.mem_cons.mp hf).resolve_left hft)

namespace Image

/-- The frames of the tables. -/
def frames (b : Image) : List ℕ := [b.bootPageDirectory, b.bootPageTable1, b.kernelPd, b.kernelPt]

lemma frames_ne (b : Image) : b.kernelPd ≠ b.bootPageDirectory ∧ b.kernelPd ≠ b.bootPageTable1 ∧
    b.kernelPt ≠ b.bootPageDirectory ∧ b.kernelPt ≠ b.bootPageTable1 ∧ b.kernelPt ≠ b.kernelPd := by
  have h := b.distinct
  simp only [List.nodup_cons, List.mem_cons, List.not_mem_nil, not_or, or_false] at h
  exact ⟨Ne.symm h.1.2.1, Ne.symm h.2.1.1, Ne.symm h.1.2.2, Ne.symm h.2.1.2, Ne.symm h.2.2.1⟩

lemma target_frame (hf : f < 1024) : target (u32 (physaddr (BOOTLOC + 4096 * f) ||| 3)) = some f := by
  have hentry : target (u32 (u32 (4096 * f) ||| 3)) = some (4096 * f / 4096) :=
    target_entry (by omega) (by omega) (by norm_num) (by norm_num)
  rwa [Nat.mul_div_cancel_left f (by norm_num), u32_eq (x := 4096 * f) (by omega),
    ← physaddr_higher (x := 4096 * f) (by omega)] at hentry

/-- The words of `boot_page_directory` without the identity map. -/
def dirWord (b : Image) (j : ℕ) : ℕ :=
  if j = 768 then 4096 * b.bootPageTable1 + 3 else if j = 1023 then 4096 * b.bootPageDirectory + 3 else 0

lemma kptWord_target {m : ℕ → ℕ} (hm : ∀ k < 1024, m k = b.dirWord k) (hk : k < 1024) :
    target (if 256 ≤ k then Booted.kptWord n m k else m k) =
      if k = 768 then some b.bootPageTable1 else if k = 1023 then some b.bootPageDirectory
      else if 256 ≤ k ∧ k ≤ 260 + n then some k else none := by
  have hd := (frame_bounds (b := b) (f := b.bootPageDirectory) (by simp)).2.1
  have ht : b.bootPageTable1 < 1024 := (frame_bounds (b := b) (f := b.bootPageDirectory + 1) (by simp)).2.1
  have hframe : ∀ f < 1024, target (4096 * f + 3) = some f := fun f hf => by
    rw [target_of_present (by rw [Present]; omega), frameOf]
    exact congrArg some (by omega)
  rw [Booted.kptWord, hm k hk, dirWord]
  by_cases h768 : k = 768
  · subst h768
    rw [if_pos (by norm_num), if_pos rfl, if_neg (by omega), if_pos rfl]
    exact hframe _ ht
  · rw [if_neg h768, if_neg h768]
    by_cases h1023 : k = 1023
    · subst h1023
      rw [if_pos (by norm_num), if_pos rfl, if_neg (by omega), if_pos rfl]
      exact hframe _ hd
    · rw [if_neg h1023, if_neg h1023, if_pos rfl]
      by_cases hlo : 256 ≤ k
      · rw [if_pos hlo]
        by_cases hpast : 260 + n < k
        · have hor : 4096 * k ||| 2 = 4096 * k + 2 := (Nat.two_pow_add_eq_or_of_lt (i := 12) (by norm_num) k).symm
          rw [if_pos hpast, if_neg (by omega), hor, target_of_not_present (by rw [Present]; omega)]
        · have hor : 4096 * k ||| 3 = 4096 * k + 3 := (Nat.two_pow_add_eq_or_of_lt (i := 12) (by norm_num) k).symm
          rw [if_neg hpast, if_pos (by omega), hor]
          exact hframe k hk
      · rw [if_neg hlo, if_neg (by omega)]
        rfl

lemma copy_source : u32 (BOOTLOC + 4096 * b.bootPageDirectory + 4 * 0xC0000000) = BOOTLOC + 4096 * b.bootPageDirectory := by
  have hd := (frame_bounds (b := b) (f := b.bootPageDirectory) (by simp)).2.1
  rw [u32, BOOTLOC]
  omega

/-- `pg_init` returns in the new directory, whose table is that of the pages with their own numbers. -/
lemma pgInit_ok (hs : Booted b b.frames s) (hdir : ∀ j < 1024, s.phys b.bootPageDirectory j = b.dirWord j)
    (h8 : multibootLoc % 8 = 0) (hlow : multibootLoc < 2 ^ 22) (hout : multibootLoc / 4096 ∉ b.frames) :
    ∃ t, b.pgInit s (BOOTLOC + 4096 * b.bootPageDirectory) (u32 (multibootLoc + 0xC0000000)) = .ok t ∧
      t.cr3 = b.kernelPd ∧ t.pmm = s.pmm ∧ InHigherHalf t b.kernelPt ∧
      ∀ k < 1024, target (t.phys b.kernelPt k) =
        if k = 768 then some b.bootPageTable1 else if k = 1023 then some b.bootPageDirectory
        else if 256 ≤ k ∧ k ≤ 260 + b.initPages (s.phys (multibootLoc / 4096) (multibootLoc % 4096 / 4)) then some k else none := by
  obtain ⟨hKD, hK1, hTD, hT1, hTK⟩ := b.frames_ne
  have hDlt := (frame_bounds (b := b) (f := b.bootPageDirectory) (by simp)).2.1
  have hKlt := (frame_bounds (b := b) (f := b.kernelPd) (by simp)).2.1
  have hTlt := (frame_bounds (b := b) (f := b.kernelPt) (by simp)).2.1
  have hD1 : b.bootPageDirectory ≠ b.bootPageTable1 := (Nat.lt_succ_self _).ne
  have hmem : b.bootPageDirectory ∈ b.frames ∧ b.kernelPd ∈ b.frames ∧ b.kernelPt ∈ b.frames := by simp [frames]
  obtain ⟨hgD, hg1, hgK, hgT⟩ : multibootLoc / 4096 ≠ b.bootPageDirectory ∧ multibootLoc / 4096 ≠ b.bootPageTable1 ∧
      multibootLoc / 4096 ≠ b.kernelPd ∧ multibootLoc / 4096 ≠ b.kernelPt := by simpa [frames] using hout
  have htag := tag_pointer h8 hlow
  have htagv : u32 (multibootLoc + 0xC0000000) = BOOTLOC + multibootLoc := by
    rw [htag]
    omega
  have htagp : physaddr (BOOTLOC + multibootLoc) = multibootLoc := physaddr_higher (by omega)
  -- the directory of the kernel, blank
  obtain ⟨x₁, s₁, hnew, hr₁⟩ := hs.newinitPd hmem.2.1 hKD hK1
  have hb₁ := hr₁.booted hs hKD hK1
  have hp₁ : Present (s₁.phys b.bootPageDirectory 768) := by
    rw [hr₁.frame hKD.symm, hdir 768 (by norm_num), dirWord, if_pos rfl, Present]
    omega
  obtain ⟨x₂, hmap₂, hx₂, hb₂⟩ := hb₁.mapTag hp₁ hlow
  set s₂ := s₁.setWord b.bootPageTable1 (multibootLoc / 4096) x₂ with hs₂
  obtain ⟨s₃, hclear, hr₃⟩ := hb₂.clear (.tail _ hmem.2.1) hKD hK1 (show 1024 / 4 ≤ 1024 by norm_num)
  have hb₃ := hr₃.booted hb₂ hKD hK1
  -- the table, a copy of the directory of the boot
  have hsource : ∀ k < 1024, s₃.phys b.bootPageDirectory k = b.dirWord k := fun k hk => by
    rw [hr₃.frame hKD.symm, hs₂, phys_setWord fun h => absurd h hD1, hr₁.frame hKD.symm]
    exact hdir k hk
  have hsmall : ∀ k < 1024, s₃.phys b.bootPageDirectory k < 2 ^ 32 := fun k hk => by
    rw [hsource k hk, dirWord, bootPageTable1]
    split_ifs <;> omega
  obtain ⟨s₄, hcopy, hr₄⟩ := hb₃.copyWords (.tail _ hmem.2.2) (.tail _ hmem.1) hTD.symm hTD hT1 hsmall
  have hb₄ := hr₄.booted hb₃ hTD hT1
  have hsize : s₄.phys (multibootLoc / 4096) (multibootLoc % 4096 / 4) = s.phys (multibootLoc / 4096) (multibootLoc % 4096 / 4) := by
    rw [hr₄.frame hgT, hr₃.frame hgK, hs₂, phys_setWord fun h => absurd h hg1, hr₁.frame hgK]
  have hload := hb₄.load (.head _) (show multibootLoc % 4096 / 4 < 1024 by omega)
  rw [hsize, ← htag, htagv] at hload
  obtain ⟨s₅, hkpt, hr₅⟩ := hb₄.initKpt (.tail _ hmem.2.2) hTD hT1 (s.phys (multibootLoc / 4096) (multibootLoc % 4096 / 4))
  have hb₅ := hr₅.booted hb₄ hTD hT1
  -- the two entries of the directory
  have hst₆ := hb₅.store (.tail _ hmem.2.1) (show 768 < 1024 by norm_num) (physaddr (BOOTLOC + 4096 * b.kernelPt) ||| 3)
  have hb₆ := hb₅.setWord hKD hK1 768 (physaddr (BOOTLOC + 4096 * b.kernelPt) ||| 3)
  set s₆ := s₅.setWord b.kernelPd 768 (physaddr (BOOTLOC + 4096 * b.kernelPt) ||| 3) with hs₆
  have hst₇ := hb₆.store (.tail _ hmem.2.1) (show 1023 < 1024 by norm_num) (physaddr (BOOTLOC + 4096 * b.kernelPd) ||| 3)
  have hb₇ := hb₆.setWord hKD hK1 1023 (physaddr (BOOTLOC + 4096 * b.kernelPd) ||| 3)
  set s₇ := s₆.setWord b.kernelPd 1023 (physaddr (BOOTLOC + 4096 * b.kernelPd) ||| 3) with hs₇
  have hentry : target (s₇.phys b.kernelPd 768) = some b.kernelPt := by
    rw [hs₇, phys_setWord fun _ => by norm_num, hs₆, phys_setWord_self]
    exact target_frame hTlt
  obtain ⟨x₈, hmap₈, -, -⟩ := hb₇.mapTag (exists_of_target hentry).1 hlow
  have hroot : physaddr (BOOTLOC + 4096 * b.kernelPd) / 4096 = b.kernelPd := by
    rw [physaddr_higher (by omega), Nat.mul_div_cancel_left _ (by norm_num)]
  have hdirectory : physaddr (BOOTLOC + 4096 * b.bootPageDirectory) / 4096 = b.bootPageDirectory := by
    rw [physaddr_higher (by omega), Nat.mul_div_cancel_left _ (by norm_num)]
  refine ⟨{ s₇.setWord b.bootPageTable1 (multibootLoc / 4096) x₈ with cr3 := b.kernelPd }, ?_, rfl, ?_, fun j hj => ?_, fun k hk => ?_⟩
  · rw [pgInit, htagv]
    simp only [hnew, ok_bind, hdirectory, htagp, hmap₂, hclear, copy_source, hcopy, hload, hkpt, hst₆, hst₇, hroot, hmap₈]
    rfl
  · change s₅.pmm = s.pmm
    rw [hr₅.pmm, hr₄.pmm, hr₃.pmm]
    exact hr₁.pmm
  · have hword : (s₇.setWord b.bootPageTable1 (multibootLoc / 4096) x₈).phys b.kernelPd j = s₇.phys b.kernelPd j :=
      phys_setWord fun h => absurd h hK1
    rw [table32_eq hj]
    change target ((s₇.setWord b.bootPageTable1 (multibootLoc / 4096) x₈).phys b.kernelPd j) = _
    rw [hword]
    by_cases h768 : j = 768
    · subst h768
      exact hentry
    · rw [if_neg h768]
      by_cases h1023 : j = 1023
      · subst h1023
        rw [hs₇, phys_setWord_self]
        exact target_frame hKlt
      · rw [if_neg h1023, hs₇, phys_setWord fun _ => h1023, hs₆, phys_setWord fun _ => h768, hr₅.frame hTK.symm, hr₄.frame hTK.symm]
        by_cases hlow : j < 1024 / 4
        · rw [hr₃.word (Nat.zero_le j) hlow]
          rfl
        · rw [hr₃.rest fun h => hlow h.2, hs₂, phys_setWord fun h => absurd h hK1, hr₁.word (Nat.zero_le j) hj,
            Function.update_of_ne h1023]
          rfl
  · have hcopied : ∀ k < 1024, s₄.phys b.kernelPt k = b.dirWord k := fun k hk =>
      (hr₄.word (Nat.zero_le k) hk).trans (hsource k hk)
    rw [← kptWord_target hcopied hk]
    have hword : (s₇.setWord b.bootPageTable1 (multibootLoc / 4096) x₈).phys b.kernelPt k = s₅.phys b.kernelPt k := by
      rw [phys_setWord fun h => absurd h hT1, hs₇, phys_setWord fun h => absurd h hTK, hs₆, phys_setWord fun h => absurd h hTK]
    change target ((s₇.setWord b.bootPageTable1 (multibootLoc / 4096) x₈).phys b.kernelPt k) = _
    rw [hword, hr₅.2]
    exact congrArg target (if_congr (by simp [hk]) rfl rfl)

lemma start_booted : Booted b b.frames ((b.enablePaging s).setWord b.bootPageDirectory 0 0) := by
  have hne : b.bootPageTable1 ≠ b.bootPageDirectory := (Nat.lt_succ_self _).ne'
  refine ⟨rfl, start_higherHalf, fun f hf => ?_⟩
  obtain ⟨-, hlt, hpage⟩ := frame_bounds hf
  rw [phys_setWord fun h => absurd h hne]
  exact ⟨hlt, (fillTables_table hlt).trans hpage⟩

lemma start_directory (hj : j < 1024) :
    ((b.enablePaging s).setWord b.bootPageDirectory 0 0).phys b.bootPageDirectory j = b.dirWord j := by
  by_cases h0 : j = 0
  · subst h0
    rw [phys_setWord_self]
    rfl
  · rw [phys_setWord fun _ => h0]
    refine (fillTables_directory hj).trans ?_
    rw [dirWord, if_congr (or_iff_right h0) rfl rfl]

lemma start_frame (hd : f ≠ b.bootPageDirectory) (ht : f ≠ b.bootPageTable1) :
    ((b.enablePaging s).setWord b.bootPageDirectory 0 0).phys f k = s.phys f k := by
  rw [phys_setWord fun h => absurd h hd]
  exact fillTables_frame hd ht

/-- The pages that the kernel's table gets are enough for the image. -/
lemma kernelPage_image {size tag : ℕ} (hsize : size < 2 ^ 31) (h768 : k ≠ 768) (h1023 : k ≠ 1023) (hpage : b.page k = some k) :
    b.kernelPage size tag k = some k := by
  have hend := b.end_lt
  have hround : pgroundup NUM_FRAMES = 3072 := by decide
  have hin : KERNEL_START ≤ 4096 * k ∧ 4096 * k < b.kernelEnd := by
    rw [page] at hpage
    split_ifs at hpage with hin
    exact hin
  rw [KERNEL_START] at hin
  have hpages : 256 ≤ k ∧ k ≤ 260 + b.initPages size := by
    rw [initPages, hround, u32_eq (by omega)]
    omega
  rw [kernelPage, if_neg h768, if_neg h1023, if_pos hpages, ite_self]

/-- From `_start` on, for boot information in the first four megabytes and outside the kernel's tables: the kernel ends up in
its own directory, where each address of the higher half is that of the page with the same number, as far as `init_kpt` went.
That is as far as the image, but for the two pages that entries of the boot directory have taken. -/
theorem enterKernel_walk (b : Image) (s : Paging) (h8 : multibootLoc % 8 = 0) (hlow : multibootLoc < 2 ^ 22)
    (hout : multibootLoc / 4096 ∉ b.frames) :
    ∃ t, b.enterKernel s multibootLoc = .ok t ∧ t.cr3 = b.kernelPd ∧ t.pmm = s.pmm ∧
      let size := s.phys (multibootLoc / 4096) (multibootLoc % 4096 / 4)
      (∀ v < 2 ^ 32, t.walk32 v = higherHalf b.kernelPd b.kernelPt (b.kernelPage size (multibootLoc / 4096)) v) ∧
      (size < 2 ^ 31 → ∀ k, k ≠ 768 → k ≠ 1023 → b.page k = some k → b.kernelPage size (multibootLoc / 4096) k = some k) := by
  obtain ⟨-, -, -, -, hTK⟩ := b.frames_ne
  obtain ⟨hgD, hg1, -⟩ : multibootLoc / 4096 ≠ b.bootPageDirectory ∧ multibootLoc / 4096 ≠ b.bootPageTable1 ∧ _ := by
    simpa only [frames, List.mem_cons, not_or] using hout
  obtain ⟨t, hrun, hcr3, hpmm, hhigher, htable⟩ := pgInit_ok (b := b) (s := (b.enablePaging s).setWord b.bootPageDirectory 0 0)
    start_booted (fun _ => start_directory) h8 hlow hout
  rw [start_frame hgD hg1] at htable
  have htag : u32 (multibootLoc + 0xC0000000) = BOOTLOC + multibootLoc := by
    rw [u32_eq (by omega), BOOTLOC, Nat.add_comm]
  obtain ⟨hpd, hpt⟩ := tag_page hlow
  have hround : u32 (pgrounddown multibootLoc) % 2 ^ 10 = 0 := by
    rw [pgrounddown_eq (by omega), u32_eq (by omega)]
    omega
  have hself : t.table32 1023 = some t.cr3 := hhigher 1023 (by norm_num)
  have hmap : memoryMap t t.cr3 (pgrounddown multibootLoc) (pgrounddown (BOOTLOC + multibootLoc)) 0x3 =
      .ok (t.setWord b.kernelPt (ptOf (pgrounddown (BOOTLOC + multibootLoc))) (u32 (pgrounddown multibootLoc) ||| 0x3)) :=
    memoryMap_self hself ((congrArg t.table32 hpd).trans (hhigher 768 (by norm_num))) hround
  rw [hpt] at hmap
  have hne : b.kernelPt ≠ t.cr3 := hcr3 ▸ hTK
  refine ⟨t.setWord b.kernelPt (multibootLoc / 4096) (u32 (pgrounddown multibootLoc) ||| 0x3), ?_, hcr3, hpmm, fun v hv => ?_,
    fun hsize k => kernelPage_image hsize⟩
  · rw [htag] at hrun
    simp only [enterKernel, start_eq, ok_bind, if_neg (not_not_intro h8), htag, hrun, physaddr_higher (show multibootLoc < 2 ^ 30 by omega)]
    exact hmap
  · have hnew : InHigherHalf (t.setWord b.kernelPt (multibootLoc / 4096) (u32 (pgrounddown multibootLoc) ||| 0x3)) b.kernelPt :=
      fun j hj => (table32_setWord hne j).trans (hhigher j hj)
    rw [hnew.walk32 hv, higherHalf, higherHalf]
    refine if_congr Iff.rfl ?_ (by rw [← hcr3]; rfl)
    by_cases hpage : ptOf v = multibootLoc / 4096
    · rw [hpage, phys_setWord_self, kernelPage, if_pos rfl]
      exact tag_target hlow
    · rw [phys_setWord fun _ => hpage, kernelPage, if_neg hpage]
      exact htable _ (ptOf_lt v)

/-- A kernel of 128 KiB with its tables at the end. -/
def small : Image where
  kernelEnd := 0x120000
  bootPageDirectory := 270
  kernelPd := 272
  kernelPt := 273
  end_lt := by norm_num
  inside := by decide
  low := by decide
  distinct := by decide

theorem enterKernel_walk_small :
    let s : Paging := ⟨fun f i => if f = 16 ∧ i = 0 then 0x400 else 0xABC00007, ⟨fun _ => 0, 0⟩, 5, fun _ => 0, 36⟩
    ∃ t, small.enterKernel s 0x10000 = .ok t ∧ t.cr3 = 272 ∧ t.walk32 0xC0111234 = some 273 ∧ t.walk32 0xC0010000 = some 16 ∧
      t.walk32 0xC0300000 = some 271 ∧ t.walk32 0xC0200000 = none := by
  intro s
  obtain ⟨t, ht, hcr3, -, hwalk, -⟩ := enterKernel_walk small s (show 0x10000 % 8 = 0 by norm_num) (by norm_num) (by decide)
  refine ⟨t, ht, hcr3, ?_, ?_, ?_, ?_⟩
  · exact (hwalk 0xC0111234 (by norm_num)).trans (by decide)
  · exact (hwalk 0xC0010000 (by norm_num)).trans (by decide)
  · exact (hwalk 0xC0300000 (by norm_num)).trans (by decide)
  · exact (hwalk 0xC0200000 (by norm_num)).trans (by decide)

end Image

end WordOS.Boot
