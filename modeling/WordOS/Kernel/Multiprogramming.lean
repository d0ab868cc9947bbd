import WordOS.Kernel.SchedulerContexts
import WordOS.Memory.ProcessSpaces

/-! The scheduler and the address spaces of its processes as one system, from `init_scheduler` on: a timer tick saves the
registers of one process and loads the page directories of the next. Process records are written by the scheduler alone. -/

namespace WordOS.Kernel.Multiprogramming

open Machine Lib.LinkedList Lib.Runs Memory.AddressSpaces

structure System where
  sched : Sched
  memory : Memory.Processes

inductive Act
  | spawned (process : Ptr) (initial : CpuStatus) (vmm : Ptr)
  | idled
  | ticked (previous : Ptr) (interrupted : CpuStatus) (chosen : Ptr) (resumed : CpuStatus)
  | used (op : Op)

def Act.Resumes (p : Ptr) : Act → Prop
  | .ticked _ _ chosen _ => chosen = p
  | _ => False

/-- `create_process` works on both parts, and `schedule` calls `set_current_vmm`; meanwhile the process that runs works on its
memory. -/
inductive Moves : System → Act → System → Prop
  | spawn {S fuel fuel' p context v phys esp spaces ops held function cr0 cr3 privileged sched} :
      Memory.createProcessSpace fuel S.memory.spaces = .ok (v, esp, spaces) →
      Run Memory.AddressSpaces.Step S.memory (.create v phys :: .switch v :: ops ++ leaving S.memory.spaces.currentVmm)
        ⟨spaces, v :: S.memory.made, loadedAfter (v :: S.memory.made) v S.memory.spaces.currentVmm, held⟩ →
      v ∉ S.memory.made → (∀ op ∈ ops, op.isLocal) → Fresh S.sched p ⟨S.sched.nextFreePid, .ready, context, v, 0⟩ →
      privileged ≠ PRIV_NO_ADD →
      createProcess fuel' S.sched p context v function esp cr0 cr3 privileged = .ok sched →
      Moves S (.spawned p (initialContext function esp cr0 cr3) v)
        ⟨sched, spaces, v :: S.memory.made, loadedAfter (v :: S.memory.made) v S.memory.spaces.currentVmm, held⟩
  | idle {S sched} : setCurrentProcessIdle S.sched = .ok sched → Moves S .idled ⟨sched, S.memory⟩
  | tick {S fuel c r sched memory} : handleSchedule fuel S.sched c = .ok (r, sched) →
      Memory.AddressSpaces.Step S.memory (.switch sched.currentVmm) memory →
      Moves S (.ticked S.sched.currentProcess c sched.currentProcess r) ⟨sched, memory⟩
  | use {S op memory} : Memory.AddressSpaces.Step S.memory op memory → op.isLocal →
      memory.spaces.currentVmm = S.memory.spaces.currentVmm → Moves S (.used op) ⟨S.sched, memory⟩

/-- The processes of `l` are listed, each has a VMM of its own, and that of the process that runs is loaded. -/
structure Joint (S : System) (l : List Ptr) : Prop where
  sound : Sound S.sched l
  holds : ∃ x, Holds S.memory x
  made : ∀ q ∈ S.sched.idleProcess :: l, (S.sched.procs q).vmmObj ∈ S.memory.made
  apart : ∀ q ∈ S.sched.idleProcess :: l, ∀ r ∈ S.sched.idleProcess :: l, q ≠ r →
    (S.sched.procs q).vmmObj ≠ (S.sched.procs r).vmmObj
  running : S.sched.currentProcess ≠ 0 → S.memory.loaded = some (S.sched.procs S.sched.currentProcess).vmmObj ∧
    S.memory.spaces.currentVmm = (S.sched.procs S.sched.currentProcess).vmmObj

/-- Among the processes of `l`, `p` waits for its turn, with `c` saved and the mappings `mapped` in its part of the memory. -/
structure Waits (S : System) (l : List Ptr) (p : Ptr) (c : CpuStatus) (mapped : ℕ → Option ℕ) : Prop where
  mem : p ∈ S.sched.idleProcess :: l
  preempted : S.sched.currentProcess ≠ 0
  ne : p ≠ S.sched.currentProcess
  context : S.sched.contexts (S.sched.procs p).context = c
  mapped : ∀ virt < 2 ^ 31, Memory.pdIndexOf virt ≠ 511 → own S.memory (S.sched.procs p).vmmObj virt = mapped virt

section Local

variable {s t : Memory.Processes} {ops : List Op} {op : Op}

lemma local_step (hs : Memory.AddressSpaces.Step s op t) (hop : op.isLocal) : t.made = s.made ∧ t.loaded = s.loaded := by
  cases hs with
  | create => cases hop
  | switch => cases hop
  | _ => exact ⟨rfl, rfl⟩

lemma local_ne_switch {v : ℕ} (hop : op.isLocal) : Op.switch v ≠ op := by
  rintro rfl
  cases hop

end Local

variable {S T U V : System} {l : List Ptr} {p q o : Ptr} {c r c' r' : CpuStatus} {mapped : ℕ → Option ℕ}
  {act : Act} {acts acts' : List Act}

namespace Joint

variable (h : Joint S l)
include h

lemma loaded_ne (hp : p ∈ S.sched.idleProcess :: l) (hc : S.sched.currentProcess ≠ 0) (hne : p ≠ S.sched.currentProcess) :
    S.memory.loaded ≠ some (S.sched.procs p).vmmObj := by
  rw [(h.running hc).1]
  intro he
  have hcur := h.sound.current.resolve_left hc
  exact h.apart _ hcur p hp hne.symm (Option.some.inj he)

/-- Memory operations on behalf of others leave what a waiting process has. -/
lemma own_run {memory : Memory.Processes} {ops : List Op} (hw : Waits S l p c mapped)
    (hr : Run Memory.AddressSpaces.Step S.memory ops memory) (hops : Op.switch (S.sched.procs p).vmmObj ∉ ops) {virt : ℕ}
    (hvirt : virt < 2 ^ 31) (hj : Memory.pdIndexOf virt ≠ 511) : own memory (S.sched.procs p).vmmObj virt = mapped virt := by
  obtain ⟨x, hx⟩ := h.holds
  rw [← hw.mapped virt hvirt hj]
  exact hx.own_run (h.made p hw.mem) (h.loaded_ne hw.mem hw.preempted hw.ne) hr hops hvirt hj

lemma use {op : Op} {memory : Memory.Processes} (hs : Memory.AddressSpaces.Step S.memory op memory) (hop : op.isLocal)
    (hv : memory.spaces.currentVmm = S.memory.spaces.currentVmm) : Joint ⟨S.sched, memory⟩ l := by
  obtain ⟨x, hx⟩ := h.holds
  obtain ⟨hmade, hloaded⟩ := local_step hs hop
  refine ⟨h.sound, ⟨_, hx.step hs⟩, fun q hq => ?_, h.apart, fun hc => ?_⟩
  · rw [hmade]
    exact h.made q hq
  · rw [hloaded, hv]
    exact h.running hc

lemma use_waits {op : Op} {memory : Memory.Processes} (hw : Waits S l p c mapped)
    (hs : Memory.AddressSpaces.Step S.memory op memory) (hop : op.isLocal) : Waits ⟨S.sched, memory⟩ l p c mapped :=
  ⟨hw.mem, hw.preempted, hw.ne, hw.context, fun _ => h.own_run hw (.single hs) (by simpa using local_ne_switch hop)⟩

lemma idle {sched : Sched} (hs : setCurrentProcessIdle S.sched = .ok sched) : Joint ⟨sched, S.memory⟩ l ∧
    ∀ {p c mapped}, Waits S l p c mapped → Waits ⟨sched, S.memory⟩ l p c mapped := by
  obtain ⟨rfl, hsound⟩ := h.sound.requestIdle hs
  have hsame : ∀ q, ((S.sched.put S.sched.currentProcess (·.setStatus .idle)).procs q).vmmObj = (S.sched.procs q).vmmObj ∧
      ((S.sched.put S.sched.currentProcess (·.setStatus .idle)).procs q).context = (S.sched.procs q).context := by
    intro q
    rw [put_procs]
    split_ifs <;> exact ⟨rfl, rfl⟩
  refine ⟨⟨hsound, h.holds, fun q hq => ?_, fun q hq r hr hne => ?_, fun hc => ?_⟩, fun {p _ _} hw => ?_⟩
  · rw [(hsame q).1]
    exact h.made q hq
  · rw [(hsame q).1, (hsame r).1]
    exact h.apart q hq r hr hne
  · rw [(hsame _).1]
    exact h.running hc
  · refine ⟨hw.mem, hw.preempted, hw.ne, ?_, ?_⟩
    · rw [(hsame p).2]
      exact hw.context
    · rw [(hsame p).1]
      exact hw.mapped

lemma loads {n : Ptr} {memory : Memory.Processes} (hn : n ∈ S.sched.idleProcess :: l)
    (hs : Memory.AddressSpaces.Step S.memory (.switch (S.sched.procs n).vmmObj) memory) :
    memory = { S.memory with spaces := Memory.setCurrentVmm S.memory.spaces (S.sched.procs n).vmmObj
                             loaded := some (S.sched.procs n).vmmObj } := by
  have hm := h.made n hn
  cases hs
  rw [if_pos hm]

lemma tick {fuel : ℕ} {sched : Sched} {memory : Memory.Processes} (hs : handleSchedule fuel S.sched c = .ok (r, sched))
    (hm : Memory.AddressSpaces.Step S.memory (.switch sched.currentVmm) memory) :
    ∃ n ∈ S.sched.idleProcess :: l, sched = ticked S.sched c n ∧ r = sched.contexts (S.sched.procs n).context ∧
      Memory.AddressSpaces.Step S.memory (.switch (S.sched.procs n).vmmObj) memory ∧ Joint ⟨sched, memory⟩ l := by
  have hok := h.sound.handleSchedule_ok (.inr (ne_fuel hs))
  obtain ⟨rfl, rfl⟩ := Prod.mk.injEq .. ▸ Except.ok.inj (hok.symm.trans hs)
  have hn := h.sound.nextProcess_mem
  obtain ⟨x, hx⟩ := h.holds
  refine ⟨nextProcess S.sched, hn, rfl, rfl, hm, h.sound.tick hn, ⟨_, hx.step hm⟩, fun q hq => ?_, h.apart, fun _ => ?_⟩
  · rw [h.loads hn hm]
    exact h.made q hq
  · rw [h.loads hn hm]
    refine ⟨rfl, ?_⟩
    rw [Memory.setCurrentVmm]
    dsimp only
    split_ifs <;> rfl

end Joint

lemma createProcessSpace_currentVmm {fuel v esp : ℕ} {a b : Memory.Spaces}
    (h : Memory.createProcessSpace fuel a = .ok (v, esp, b)) (h0 : a.currentVmm ≠ 0) : b.currentVmm = a.currentVmm := by
  obtain ⟨⟨v', phys, u⟩, -, h⟩ := bind_eq_ok.mp h
  obtain ⟨⟨esp', w⟩, -, h⟩ := bind_eq_ok.mp h
  obtain ⟨-, h⟩ := Prod.mk.inj (Except.ok.inj h)
  obtain ⟨-, rfl⟩ := Prod.mk.inj h
  rw [Memory.leavePdptes, if_neg h0, Memory.setCurrentVmm]
  dsimp only
  split_ifs <;> rfl

/-- What `create_process` does to the processes of `l`. -/
structure Spawned (s : Sched) (l : List Ptr) (p v : ℕ) (t : Sched) : Prop where
  sound : Sound t (l ++ [p])
  idle : t.idleProcess = s.idleProcess
  current : t.currentProcess = s.currentProcess
  mem : ∀ q ∈ t.idleProcess :: (l ++ [p]), q ∈ s.idleProcess :: l ∨ q = p
  vmm : ∀ q ∈ s.idleProcess :: l, (t.procs q).vmmObj = (s.procs q).vmmObj
  context : ∀ q ∈ s.idleProcess :: l, t.contexts (t.procs q).context = s.contexts (s.procs q).context
  new : (t.procs p).vmmObj = v

lemma createProcess_spawned {s t : Sched} {fuel context v function esp cr0 cr3 privileged : ℕ} (h : Sound s l)
    (hr : Fresh s p ⟨s.nextFreePid, .ready, context, v, 0⟩) (hp : privileged ≠ PRIV_NO_ADD)
    (hs : createProcess fuel s p context v function esp cr0 cr3 privileged = .ok t) : Spawned s l p v t := by
  obtain ⟨t', ht, hsound, hrel⟩ := h.createProcess_ok hr hp (.inr (ne_fuel hs))
  obtain rfl := Except.ok.inj (ht.symm.trans hs)
  have hidle : t'.idleProcess = s.idleProcess := hrel.idleProcess
  have hkept : ∀ q ∈ s.idleProcess :: l, _ ∧ _ := fun q hq =>
    h.writeProcess_apart (v := initialContext function esp cr0 cr3) hr hq
  refine ⟨hsound, hidle, hrel.currentProcess, fun q hq => ?_, fun q hq => ?_, fun q hq => ?_, ?_⟩
  · rw [hidle] at hq
    simpa [or_assoc] using hq
  · rw [hrel.vmmObj, (hkept q hq).1]
  · rw [hrel.context, hrel.contexts, (hkept q hq).1, (hkept q hq).2]
  · rw [hrel.vmmObj]
    simp [writeProcess]

section Spawn

variable {sched : Sched} {memory : Memory.Processes} {v phys : ℕ} {ops : List Op} (h : Joint S l)
  (hn : Spawned S.sched l p v sched) (hv : v ∉ S.memory.made)
  (hrun : Run Memory.AddressSpaces.Step S.memory
    (.create v phys :: .switch v :: ops ++ leaving S.memory.spaces.currentVmm) memory)
include h hn hv hrun

lemma Joint.spawn (hmade : memory.made = v :: S.memory.made)
    (hloaded : memory.loaded = loadedAfter (v :: S.memory.made) v S.memory.spaces.currentVmm)
    (hback : S.memory.spaces.currentVmm ≠ 0 → memory.spaces.currentVmm = S.memory.spaces.currentVmm) :
    Joint ⟨sched, memory⟩ (l ++ [p]) := by
  obtain ⟨x, hx⟩ := h.holds
  have hne : ∀ q ∈ S.sched.idleProcess :: l, (S.sched.procs q).vmmObj ≠ v := fun q hq he => hv (he ▸ h.made q hq)
  refine ⟨hn.sound, ⟨_, hrun.foldl (R := Holds) (fun _ _ _ _ hi hs => hi.step hs) hx⟩, fun q hq => ?_, fun q hq r hr hqr => ?_,
    fun hc0 => ?_⟩
  · rw [hmade]
    rcases hn.mem q hq with hq | rfl
    · rw [hn.vmm q hq]
      exact List.mem_cons_of_mem _ (h.made q hq)
    · rw [hn.new]
      exact List.mem_cons_self
  · change (sched.procs q).vmmObj ≠ (sched.procs r).vmmObj
    rcases hn.mem q hq with hq' | rfl <;> rcases hn.mem r hr with hr' | rfl
    · rw [hn.vmm q hq', hn.vmm r hr']
      exact h.apart q hq' r hr' hqr
    · rw [hn.vmm q hq', hn.new]
      exact hne q hq'
    · rw [hn.vmm r hr', hn.new]
      exact (hne r hr').symm
    · exact (hqr rfl).elim
  · -- the process that runs is the parent
    change sched.currentProcess ≠ 0 at hc0
    rw [hn.current] at hc0 ⊢
    have hm := h.sound.current.resolve_left hc0
    obtain ⟨-, hparent⟩ := h.running hc0
    have h0 : S.memory.spaces.currentVmm ≠ 0 := hparent ▸ (h.sound.equipped _ hm).2
    have hin : S.memory.spaces.currentVmm ∈ v :: S.memory.made := List.mem_cons_of_mem _ (hparent ▸ h.made _ hm)
    rw [hn.vmm _ hm, hloaded, loadedAfter, if_pos ⟨h0, hin⟩, hback h0, hparent]
    exact ⟨rfl, rfl⟩

lemma Joint.spawn_waits (hops : ∀ op ∈ ops, op.isLocal) (hw : Waits S l q c mapped) :
    Waits ⟨sched, memory⟩ (l ++ [p]) q c mapped := by
  have hq : q ∈ S.sched.idleProcess :: l := hw.mem
  have hcur := h.sound.current.resolve_left hw.preempted
  refine ⟨?_, hn.current ▸ hw.preempted, hn.current ▸ hw.ne, (hn.context q hq).trans hw.context, fun virt hvirt hj => ?_⟩
  · change q ∈ sched.idleProcess :: (l ++ [p])
    rw [hn.idle, ← List.cons_append]
    exact List.mem_append_left _ hq
  · change own _ (sched.procs q).vmmObj virt = _
    rw [hn.vmm q hq]
    refine h.own_run hw hrun (fun hop => ?_) hvirt hj
    rcases List.mem_append.mp hop with hop | hop
    · rcases List.mem_cons.mp hop with hop | hop
      · cases hop
      rcases List.mem_cons.mp hop with hop | hop
      · exact hv (Op.switch.inj hop ▸ h.made q hq)
      · exact local_ne_switch (hops _ hop) rfl
    · rw [leaving] at hop
      split_ifs at hop
      · cases hop
      · have hs := Op.switch.inj (List.mem_singleton.mp hop)
        exact h.apart q hq _ hcur hw.ne (hs.trans (h.running hw.preempted).2)

end Spawn

/-- A `create_process` that goes through is a move, where the addresses it is given are in their parts of the memory. -/
lemma Joint.exists_spawn (h : Joint S l) {fuel fuel' context v esp function cr0 cr3 privileged : ℕ} {spaces : Memory.Spaces}
    {sched : Sched} (hc : Memory.createProcessSpace fuel S.memory.spaces = .ok (v, esp, spaces)) (hv : v ∉ S.memory.made)
    (hi : Memory.pdpteOf v = 3) (hj : Memory.pdIndexOf v ≠ 511) (he : Entered v esp spaces)
    (hparent : S.memory.spaces.currentVmm ∈ S.memory.made ∨ (S.memory.vmm S.memory.spaces.currentVmm).pdLow = 0)
    (hr : Fresh S.sched p ⟨S.sched.nextFreePid, .ready, context, v, 0⟩) (hp : privileged ≠ PRIV_NO_ADD)
    (hs : createProcess fuel' S.sched p context v function esp cr0 cr3 privileged = .ok sched) :
    ∃ T, Moves S (.spawned p (initialContext function esp cr0 cr3) v) T ∧ T.sched = sched ∧ T.memory.spaces = spaces := by
  obtain ⟨x, hx⟩ := h.holds
  obtain ⟨phys, ops, held, hrun, hops⟩ := createProcessSpace_run hx hc hv hi hj he hparent
  exact ⟨_, .spawn hc hrun hv hops hr hp hs, rfl, rfl⟩

/-- A process that is preempted waits with what it had, and one that waits goes on unless the tick chooses it. -/
lemma Joint.tick_waits (h : Joint S l) {fuel : ℕ} {sched : Sched} {memory : Memory.Processes}
    (hs : handleSchedule fuel S.sched c' = .ok (r, sched))
    (hm : Memory.AddressSpaces.Step S.memory (.switch sched.currentVmm) memory)
    (hp : p ∈ S.sched.idleProcess :: l) (hn : sched.currentProcess ≠ p) :
    (p = S.sched.currentProcess → Waits ⟨sched, memory⟩ l p c' S.memory.paging.translation) ∧
      ∀ {c mapped}, Waits S l p c mapped → Waits ⟨sched, memory⟩ l p c mapped := by
  obtain ⟨n, hnm, rfl, rfl, hm, -⟩ := h.tick hs hm
  change n ≠ p at hn
  have hctx := h.sound.ticked_contexts (c := c') hp n
  have hn0 : n ≠ 0 := h.sound.ne_zero hnm
  have hmade := h.made p hp
  obtain ⟨x, hx⟩ := h.holds
  constructor
  · intro hcur
    have hc0 : S.sched.currentProcess ≠ 0 := hcur ▸ h.sound.ne_zero hp
    rw [if_pos hcur.symm] at hctx
    refine ⟨hp, hn0, hn.symm, hctx, fun virt hvirt hj => ?_⟩
    have hl : S.memory.loaded = some (S.sched.procs p).vmmObj := hcur ▸ (h.running hc0).1
    rw [hx.own_loaded hl hvirt hj]
    have hmade' : (S.sched.procs p).vmmObj ∈ memory.made := by
      rw [h.loads hnm hm]
      exact hmade
    exact hx.own_eq (hx.step hm) hmade hmade' (fun _ _ => rfl) hvirt hj
  · intro c mapped hw
    rw [if_neg hw.ne.symm, hw.context] at hctx
    refine ⟨hp, hn0, hn.symm, hctx, fun _ => h.own_run hw (.single hm) ?_⟩
    rw [List.mem_singleton]
    exact fun he => h.apart n hnm p hp hn (Op.switch.inj he).symm

lemma Joint.step (h : Joint S l) (hs : Moves S act T) : ∃ l', Joint T l' ∧
    ∀ {p c mapped}, Waits S l p c mapped → ¬ act.Resumes p → Waits T l' p c mapped := by
  cases hs with
  | spawn hc hrun hv hops hr hp hs =>
    have hn := createProcess_spawned h.sound hr hp hs
    exact ⟨_, h.spawn hn hv hrun rfl rfl (createProcessSpace_currentVmm hc), fun hw _ => h.spawn_waits hn hv hrun hops hw⟩
  | idle hs =>
    obtain ⟨hj, hw⟩ := h.idle hs
    exact ⟨l, hj, fun hp _ => hw hp⟩
  | tick hs hm =>
    obtain ⟨-, -, -, -, -, ht⟩ := h.tick hs hm
    exact ⟨l, ht, fun hw hne => (h.tick_waits hs hm hw.mem hne).2 hw⟩
  | use hs hop hv => exact ⟨l, h.use hs hop hv, fun hw _ => h.use_waits hw hs hop⟩

lemma Joint.run (h : Joint S l) (hr : Run Moves S acts T) : ∃ l', Joint T l' ∧
    ∀ {p c mapped}, Waits S l p c mapped → (∀ act ∈ acts, ¬ act.Resumes p) → Waits T l' p c mapped := by
  induction hr with
  | nil => exact ⟨l, h, fun hw _ => hw⟩
  | snoc _ hs ih =>
    obtain ⟨l₁, h₁, hw₁⟩ := ih
    obtain ⟨l₂, h₂, hw₂⟩ := h₁.step hs
    refine ⟨l₂, h₂, fun hw hacts => ?_⟩
    rw [List.forall_mem_append, List.forall_mem_singleton] at hacts
    exact hw₂ (hw₁ hw hacts.1) hacts.2

end WordOS.Kernel.Multiprogramming
