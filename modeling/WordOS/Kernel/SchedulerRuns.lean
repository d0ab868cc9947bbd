import WordOS.Lib.Runs
import WordOS.Kernel.SchedulerTick

/-! Runs of the scheduler from `init_scheduler`: additions, idle requests and timer ticks. -/

namespace WordOS.Kernel

open Machine Lib.LinkedList Lib.Runs

/-- A process record with a context and a vmm of its own, not known to the scheduler at `p`. -/
structure Fresh (s : Sched) (p : Ptr) (r : Process) : Prop where
  ne_zero : p ≠ 0
  status : r.status = .ready
  next : r.next = 0
  context : r.context ≠ 0
  vmmObj : r.vmmObj ≠ 0
  apart : ∀ l, Listed s l → ∀ q ∈ s.idleProcess :: l, q ≠ p ∧ (s.procs q).context ≠ r.context

inductive Event
  | added (process : Ptr) (initial : CpuStatus)
  | idled
  | ticked (previous : Ptr) (interrupted : CpuStatus) (chosen : Ptr) (resumed : CpuStatus)

inductive Step : Sched → Event → Sched → Prop
  | add {s fuel p r v t} : Fresh s p r → addProcess fuel (writeProcess s p r v) p = .ok t → Step s (.added p v) t
  | create {s fuel p context vmm function esp cr0 cr3 privileged t} :
      Fresh s p ⟨s.nextFreePid, .ready, context, vmm, 0⟩ → privileged ≠ PRIV_NO_ADD →
      createProcess fuel s p context vmm function esp cr0 cr3 privileged = .ok t →
      Step s (.added p (initialContext function esp cr0 cr3)) t
  | requestIdle {s t} : setCurrentProcessIdle s = .ok t → Step s .idled t
  | tick {s fuel c v t} : handleSchedule fuel s c = .ok (v, t) →
      Step s (.ticked s.currentProcess c t.currentProcess v) t

/-- A process at `process` with `context` is all that `init_scheduler` leaves. -/
structure Started (s : Sched) (context : CpuStatus) : Prop where
  sound : Sound s []
  current : s.currentProcess = 0
  saved : s.contexts (s.procs s.idleProcess).context = context

lemma initScheduler_started {fuel : ℕ} {s t : Sched} {p x v runIdle esp cr0 cr3 : ℕ} (hp : p ≠ 0) (hx : x ≠ 0)
    (hv : v ≠ 0) (ht : initScheduler fuel s p x v runIdle esp cr0 cr3 = .ok t) :
    Started t (initialContext runIdle esp cr0 cr3) := by
  have h : ∃ t, initScheduler fuel s p x v runIdle esp cr0 cr3 = .ok t ∧
      t.procs p = ⟨s.nextFreePid, .ready, x, v, 0⟩ ∧ t.contexts x = initialContext runIdle esp cr0 cr3 ∧
      t.processListHead = 0 ∧ t.currentProcess = 0 ∧ t.idleProcess = p ∧ t.initialized = true := by
    by_cases hs : s.currentVmm = 0 <;>
      simp [initScheduler, createProcess, writeProcess, setCurrentVmm, hs]
  obtain ⟨t', ht', hproc, hctx, hhead, hcur, hidle, hinit⟩ := h
  obtain rfl := Except.ok.inj (ht'.symm.trans ht)
  refine ⟨?_, hcur, by rw [hidle, hproc, hctx]⟩
  subst hidle
  exact ⟨hhead, hinit, hp, by simp, by rw [hproc], .inl hcur, fun h => (h hcur).elim, by simp [hproc],
    by simp [hproc, hx, hv], by simp⟩

namespace Sound

variable {s t : Sched} {l : List Ptr} {fuel : ℕ} {p : Ptr} {r : Process} {v c : CpuStatus}

lemma writeProcess_apart (h : Sound s l) (hr : Fresh s p r) {q : Ptr} (hq : q ∈ s.idleProcess :: l) :
    (writeProcess s p r v).procs q = s.procs q ∧
      (writeProcess s p r v).contexts (s.procs q).context = s.contexts (s.procs q).context := by
  obtain ⟨hne, hx⟩ := hr.apart l h.listed q hq
  exact ⟨Function.update_of_ne hne .., Function.update_of_ne hx ..⟩

lemma addProcess_ok (h : Sound s l) (hr : Fresh s p r)
    (hf : l.length < fuel ∨ addProcess fuel (writeProcess s p r v) p ≠ .error .fuel) :
    ∃ t, addProcess fuel (writeProcess s p r v) p = .ok t ∧ Sound t (l ++ [p]) ∧
      Relinked (writeProcess s p r v) t := by
  have hold := fun {q} hq => (h.writeProcess_apart (v := v) hr (q := q) hq).1
  have hself : (writeProcess s p r v).procs p = r := Function.update_self ..
  have hlist : Listed (writeProcess s p r v) l := by
    refine Seg.congr h.listed fun q hq => ?_
    rw [hold (List.mem_cons_of_mem _ hq)]
  have hpl : ∀ q ∈ s.idleProcess :: l, q ≠ p := fun q hq => (hr.apart l h.listed q hq).1
  obtain ⟨t, ht, hlt, hrel, hnext⟩ := Kernel.addProcess_ok (p := p) hlist hr.ne_zero
    (fun hm => hpl p (List.mem_cons_of_mem _ hm) rfl) (by rw [hself, hr.next]) hf
  have hmem : ∀ {q}, q ∈ t.idleProcess :: (l ++ [p]) → q ∈ s.idleProcess :: l ∨ q = p := by
    intro q hq
    rw [hrel.idleProcess] at hq
    simpa [writeProcess, or_assoc] using hq
  have hst : ∀ q ∈ s.idleProcess :: l, (t.procs q).status = (s.procs q).status ∧
      (t.procs q).context = (s.procs q).context ∧ (t.procs q).vmmObj = (s.procs q).vmmObj := by
    intro q hq
    rw [hrel.status, hrel.context, hrel.vmmObj, hold hq]
    exact ⟨rfl, rfl, rfl⟩
  have hcur : t.currentProcess = s.currentProcess := hrel.currentProcess
  have hidle : t.idleProcess = s.idleProcess := hrel.idleProcess
  refine ⟨t, ht, ⟨hlt, hrel.initialized.trans h.initialized, ?_, ?_, ?_, ?_, ?_, ?_, ?_, ?_⟩, hrel⟩
  · rw [hidle]
    exact h.idle_ne
  · rw [hidle, List.mem_append, List.mem_singleton]
    exact not_or.mpr ⟨h.idle_notMem, hpl _ (by simp)⟩
  · rw [hidle, hnext _ h.idle_notMem, hold (by simp), h.idle_next]
  · rw [hcur, hidle]
    exact h.current.imp_right fun hm => by
      rw [← List.cons_append]
      exact List.mem_append_left _ hm
  · rw [hcur]
    intro hc
    rw [(hst _ (h.current.resolve_left hc)).1]
    exact h.awake hc
  · rw [hcur]
    intro q hq hne
    rcases hmem hq with hq | rfl
    · rw [(hst q hq).1]
      exact h.ready q hq hne
    · rw [hrel.status, hself, hr.status]
  · intro q hq
    rcases hmem hq with hq | rfl
    · rw [(hst q hq).2.1, (hst q hq).2.2]
      exact h.equipped q hq
    · rw [hrel.context, hrel.vmmObj, hself]
      exact ⟨hr.context, hr.vmmObj⟩
  · intro q hq q' hq' hne
    rw [hrel.context, hrel.context]
    rcases hmem hq with hm | rfl <;> rcases hmem hq' with hm' | rfl
    · rw [hold hm, hold hm']
      exact h.separate q hm q' hm' hne
    · rw [hold hm, hself]
      exact (hr.apart l h.listed q hm).2
    · rw [hold hm', hself]
      exact (hr.apart l h.listed q' hm').2.symm
    · exact (hne rfl).elim

lemma createProcess_ok (h : Sound s l) {x vmm : Ptr} {function esp cr0 cr3 privileged : ℕ}
    (hr : Fresh s p ⟨s.nextFreePid, .ready, x, vmm, 0⟩) (hp : privileged ≠ PRIV_NO_ADD)
    (hf : l.length < fuel ∨ createProcess fuel s p x vmm function esp cr0 cr3 privileged ≠ .error .fuel) :
    ∃ t, createProcess fuel s p x vmm function esp cr0 cr3 privileged = .ok t ∧ Sound t (l ++ [p]) ∧
      Relinked (writeProcess s p ⟨s.nextFreePid, .ready, x, vmm, 0⟩ (initialContext function esp cr0 cr3)) t := by
  set s' : Sched := { s with nextFreePid := u32 (s.nextFreePid + 1), currentVmm := vmm }
  have h' : Sound s' l := ⟨h.listed, h.initialized, h.idle_ne, h.idle_notMem, h.idle_next, h.current, h.awake,
    h.ready, h.equipped, h.separate⟩
  have hr' : Fresh s' p ⟨s.nextFreePid, .ready, x, vmm, 0⟩ :=
    ⟨hr.ne_zero, hr.status, hr.next, hr.context, hr.vmmObj, hr.apart⟩
  have he : createProcess fuel s p x vmm function esp cr0 cr3 privileged =
      addProcess fuel (writeProcess s' p ⟨s.nextFreePid, .ready, x, vmm, 0⟩ (initialContext function esp cr0 cr3)) p >>=
        fun t => if s.currentVmm ≠ 0 then setCurrentVmm t s.currentVmm else .ok t := by
    rw [createProcess, if_pos hp]
    rfl
  rw [he] at hf ⊢
  obtain ⟨t, ht, hs, hrel⟩ := h'.addProcess_ok hr' (hf.imp_right (mt fun he => by rw [he, error_bind]))
  have hrel : Relinked (writeProcess s p ⟨s.nextFreePid, .ready, x, vmm, 0⟩
      (initialContext function esp cr0 cr3)) t :=
    ⟨hrel.status, hrel.context, hrel.vmmObj, hrel.contexts, hrel.currentProcess, hrel.idleProcess, hrel.initialized⟩
  rw [ht, ok_bind]
  by_cases hv : s.currentVmm = 0
  · exact ⟨t, if_neg (not_not.mpr hv), hs, hrel⟩
  · refine ⟨{ t with currentVmm := s.currentVmm }, ?_, ⟨hs.listed, hs.initialized, hs.idle_ne, hs.idle_notMem,
      hs.idle_next, hs.current, hs.awake, hs.ready, hs.equipped, hs.separate⟩, ⟨hrel.status, hrel.context,
      hrel.vmmObj, hrel.contexts, hrel.currentProcess, hrel.idleProcess, hrel.initialized⟩⟩
    rw [if_pos hv, setCurrentVmm, if_neg hv]

lemma requestIdle (h : Sound s l) (hs : setCurrentProcessIdle s = .ok t) :
    t = s.put s.currentProcess (·.setStatus .idle) ∧ Sound t l := by
  have hc : s.currentProcess ≠ 0 := by
    intro hc
    simp [setCurrentProcessIdle, Sched.modify, hc] at hs
  rw [setCurrentProcessIdle, Sched.modify_ok hc] at hs
  obtain rfl := Except.ok.inj hs
  have hne : ∀ {q}, q ≠ s.currentProcess →
      (s.put s.currentProcess (·.setStatus .idle)).procs q = s.procs q := put_procs_ne
  have hsame : ∀ q, ((s.put s.currentProcess (·.setStatus .idle)).procs q).next = (s.procs q).next ∧
      ((s.put s.currentProcess (·.setStatus .idle)).procs q).context = (s.procs q).context ∧
      ((s.put s.currentProcess (·.setStatus .idle)).procs q).vmmObj = (s.procs q).vmmObj := by
    intro q
    rw [put_procs]
    split_ifs <;> exact ⟨rfl, rfl, rfl⟩
  refine ⟨rfl, Seg.congr h.listed fun q _ => (hsame q).1, h.initialized, h.idle_ne, h.idle_notMem,
    (hsame _).1.trans h.idle_next, h.current, fun _ => .inr (congrArg Process.status (put_procs_self ..)), ?_, ?_, ?_⟩
  · intro q hq hqc
    rw [hne hqc]
    exact h.ready q hq hqc
  · intro q hq
    rw [(hsame q).2.1, (hsame q).2.2]
    exact h.equipped q hq
  · intro q hq r hr hqr
    rw [(hsame q).2.1, (hsame r).2.1]
    exact h.separate q hq r hr hqr

lemma tick (h : Sound s l) {n : Ptr} (hn : n ∈ s.idleProcess :: l) : Sound (ticked s c n) l := by
  refine ⟨Seg.congr h.listed fun _ _ => rfl, h.initialized, h.idle_ne, h.idle_notMem, h.idle_next, .inr hn,
    fun _ => .inl (if_pos rfl), ?_, h.equipped, h.separate⟩
  intro q hq hqn
  change (if q = n then _ else _) = _
  rw [if_neg (show q ≠ n from hqn)]
  split_ifs with hc
  · rfl
  · refine h.ready q hq fun he => hc ⟨?_, he⟩
    exact he ▸ h.ne_zero hq

lemma handleSchedule_ok (h : Sound s l) (hf : 2 ≤ fuel ∨ handleSchedule fuel s c ≠ .error .fuel) :
    handleSchedule fuel s c = .ok ((ticked s c (nextProcess s)).contexts (s.procs (nextProcess s)).context,
      ticked s c (nextProcess s)) := by
  have hi : ¬ (!s.initialized) = true := by simp [h.initialized]
  rw [handleSchedule, if_neg hi] at hf ⊢
  rw [h.schedule_ok c (hf.imp_right (mt fun he => by rw [he, error_bind]))]
  rfl

end Sound

lemma Step.cases {s t : Sched} {e : Event} {l : List Ptr} (h : Sound s l) (hs : Step s e t) :
    (∃ p r v, e = .added p v ∧ Fresh s p r ∧ Relinked (writeProcess s p r v) t ∧ Sound t (l ++ [p])) ∨
    (e = .idled ∧ t = s.put s.currentProcess (·.setStatus .idle) ∧ Sound t l) ∨
    ∃ c, e = .ticked s.currentProcess c (nextProcess s) (t.contexts (t.procs (nextProcess s)).context) ∧
      t = ticked s c (nextProcess s) ∧ Sound t l := by
  cases hs with
  | add hr ha =>
    obtain ⟨u, hu, hsound, hrel⟩ := h.addProcess_ok hr (.inr (ne_fuel ha))
    obtain rfl := Except.ok.inj (hu.symm.trans ha)
    exact .inl ⟨_, _, _, rfl, hr, hrel, hsound⟩
  | create hr hp hc =>
    obtain ⟨u, hu, hsound, hrel⟩ := h.createProcess_ok hr hp (.inr (ne_fuel hc))
    obtain rfl := Except.ok.inj (hu.symm.trans hc)
    exact .inl ⟨_, _, _, rfl, hr, hrel, hsound⟩
  | requestIdle hi =>
    obtain ⟨rfl, hsound⟩ := h.requestIdle hi
    exact .inr (.inl ⟨rfl, rfl, hsound⟩)
  | @tick _ c _ _ ht =>
    have hok := h.handleSchedule_ok (.inr (ne_fuel ht))
    obtain ⟨rfl, rfl⟩ := Prod.mk.injEq .. ▸ Except.ok.inj (hok.symm.trans ht)
    exact .inr (.inr ⟨c, rfl, rfl, h.tick h.nextProcess_mem⟩)

lemma Step.sound {s t : Sched} {e : Event} {l : List Ptr} (h : Sound s l) (hs : Step s e t) :
    ∃ l', Sound t l' ∧ l <+: l' := by
  obtain ⟨p, _, _, _, _, _, h'⟩ | ⟨_, _, h'⟩ | ⟨_, _, _, h'⟩ := hs.cases h
  · exact ⟨l ++ [p], h', List.prefix_append ..⟩
  · exact ⟨l, h', List.prefix_rfl⟩
  · exact ⟨l, h', List.prefix_rfl⟩

lemma run_sound {s t : Sched} {es : List Event} {l : List Ptr} (h : Sound s l) (hr : Run Step s es t) :
    ∃ l', Sound t l' ∧ l <+: l' := by
  refine hr.invariant (I := fun u => ∃ l', Sound u l' ∧ l <+: l') ?_ ⟨l, h, List.prefix_rfl⟩
  rintro u e u' ⟨m, hm, hp⟩ hs
  obtain ⟨m', hm', hp'⟩ := hs.sound hm
  exact ⟨m', hm', hp.trans hp'⟩

def blank : Sched :=
  ⟨fun _ => ⟨0, .ready, 0, 0, 0⟩, fun _ => initialContext 0 0 0 0, 0, 0, 0, false, 0, 0, []⟩

lemma Fresh.of_listed {s : Sched} {p : Ptr} {r : Process} {l : List Ptr} (hl : Listed s l) (hp : p ≠ 0)
    (hs : r.status = .ready) (hn : r.next = 0) (hx : r.context ≠ 0) (hv : r.vmmObj ≠ 0)
    (ha : ∀ q ∈ s.idleProcess :: l, q ≠ p ∧ (s.procs q).context ≠ r.context) : Fresh s p r := by
  refine ⟨hp, hs, hn, hx, hv, fun l' hl' => ?_⟩
  obtain rfl := Chain.unique hl' hl
  exact ha

lemma exists_added : ∃ s₀ s, initScheduler 1 blank 16 32 48 0 0 0 0 = .ok s₀ ∧
    Run Step s₀ [.added 64 (initialContext 4 0 0 0)] s := by
  obtain ⟨s₀, s, h₀, hl, ha, hs⟩ : ∃ s₀ s, initScheduler 1 blank 16 32 48 0 0 0 0 = .ok s₀ ∧ Listed s₀ [] ∧
      (∀ q ∈ s₀.idleProcess :: [], q ≠ 64 ∧ (s₀.procs q).context ≠ 80) ∧
      addProcess 1 (writeProcess s₀ 64 ⟨1, .ready, 80, 96, 0⟩ (initialContext 4 0 0 0)) 64 = .ok s :=
    ⟨_, _, rfl, rfl, by decide, rfl⟩
  have hr : Fresh s₀ 64 ⟨1, .ready, 80, 96, 0⟩ :=
    .of_listed hl (by decide) rfl rfl (by decide) (by decide) ha
  exact ⟨s₀, s, h₀, .single (.add hr hs)⟩

end WordOS.Kernel
