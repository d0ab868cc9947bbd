import WordOS.Kernel.SchedulerRuns

/-! The death of the running process: with it, everything behind it leaves the process list. -/

namespace WordOS.Kernel

open Machine Lib.LinkedList Lib.Runs

/-- The running process calls `kill_current_process` and waits for the next tick. -/
def killAndSchedule (fuel : ℕ) (s : Sched) (context : CpuStatus) : Exec (CpuStatus × Sched) := do
  let s ← killCurrentProcess s
  handleSchedule fuel s context

inductive Life
  | event (e : Event)
  | killed (process : Ptr) (interrupted : CpuStatus) (chosen : Ptr) (resumed : CpuStatus)

/-- Steps of the scheduler, deaths of a listed running process included. -/
inductive LifeStep : Sched → Life → Sched → Prop
  | event {s e t} : Step s e t → LifeStep s (.event e) t
  | kill {s l fuel c v t} : Listed s l → s.currentProcess ∈ l → killAndSchedule fuel s c = .ok (v, t) →
      LifeStep s (.killed s.currentProcess c t.currentProcess v) t

variable {s t : Sched} {l a b : List Ptr} {c v : CpuStatus} {fuel : ℕ}

/-- The state in which the running process is marked dead and unlinked from its successors. -/
def dying (s : Sched) : Sched :=
  (s.put s.currentProcess (·.setStatus .dead)).put s.currentProcess (·.setNext 0)

lemma dying_self (s : Sched) :
    (dying s).procs s.currentProcess = ((s.procs s.currentProcess).setStatus .dead).setNext 0 := by
  simp [dying]

lemma dying_ne {q : Ptr} (h : q ≠ s.currentProcess) : (dying s).procs q = s.procs q := by
  rw [dying, put_procs_ne h, put_procs_ne h]

lemma skipProcesses_dead (hc : s.currentProcess ≠ 0) (hs : (s.procs s.currentProcess).status = .dead) :
    skipProcesses (fuel + 1) s = deleteProcess fuel s s.currentProcess >>= fun t =>
      t.load t.currentProcess >>= fun p => skipProcesses fuel { t with currentProcess := p.next } := by
  rw [skipProcesses, if_neg hc, Sched.load_ok hc, ok_bind, if_neg (by simp [hs]), if_pos hs]

namespace Sound

lemma killCurrentProcess_ok (h : Sound s (a ++ s.currentProcess :: b)) :
    killCurrentProcess s = .ok (dying s) ∧ Listed (dying s) (a ++ [s.currentProcess]) := by
  have hc : s.currentProcess ≠ 0 := h.ne_zero (by simp)
  refine ⟨?_, ?_⟩
  · rw [killCurrentProcess, Sched.modify_ok hc, ok_bind]
    exact Sched.modify_ok hc _
  · rw [Listed, dying, put_setNext_links]
    refine Chain.cut (Seg.congr h.listed fun q _ => ?_)
    rw [put_procs]
    split_ifs <;> rfl

lemma current_notMem (h : Sound s (a ++ s.currentProcess :: b)) : s.currentProcess ∉ a := by
  intro hm
  exact (List.nodup_append.mp (Chain.nodup h.listed)).2.2 _ hm _ List.mem_cons_self rfl

lemma dead_deleted (h : Sound s (a ++ s.currentProcess :: b)) {t : Sched} (ht : Listed t a)
    (hr : Relinked (saved (dying s) c) t)
    (hn : ∀ q, q ∉ a → (t.procs q).next = ((dying s).procs q).next) :
    Sound { t with currentProcess := 0 } a := by
  have hidle : t.idleProcess = s.idleProcess := hr.idleProcess
  have hmem : ∀ {q}, q ∈ t.idleProcess :: a → q ∈ s.idleProcess :: (a ++ s.currentProcess :: b) ∧ q ≠ s.currentProcess := by
    intro q hq
    rw [hidle] at hq
    rcases List.mem_cons.mp hq with rfl | hq
    · exact ⟨by simp, fun he => h.idle_notMem (by simp [← he])⟩
    · exact ⟨by simp [hq], fun he => h.current_notMem (he ▸ hq)⟩
  have hold : ∀ {q}, q ∈ t.idleProcess :: a → (t.procs q).status = (s.procs q).status ∧
      (t.procs q).context = (s.procs q).context ∧ (t.procs q).vmmObj = (s.procs q).vmmObj := by
    intro q hq
    have hp : (saved (dying s) c).procs q = s.procs q := dying_ne (hmem hq).2
    rw [hr.status, hr.context, hr.vmmObj, hp]
    exact ⟨rfl, rfl, rfl⟩
  have hni : s.idleProcess ∉ a := fun hm => h.idle_notMem (List.mem_append_left _ hm)
  refine ⟨ht, hr.initialized.trans h.initialized, hidle ▸ h.idle_ne, hidle ▸ hni, ?_, .inl rfl,
    fun h0 => (h0 rfl).elim, ?_, ?_, ?_⟩
  · change (t.procs t.idleProcess).next = 0
    rw [hidle, hn _ hni, dying_ne (hmem (by simp [hidle])).2, h.idle_next]
  · intro q hq _
    exact (hold hq).1.trans (h.ready q (hmem hq).1 (hmem hq).2)
  · intro q hq
    change (t.procs q).context ≠ 0 ∧ (t.procs q).vmmObj ≠ 0
    rw [(hold hq).2.1, (hold hq).2.2]
    exact h.equipped q (hmem hq).1
  · intro q hq r hr hqr
    change (t.procs q).context ≠ (t.procs r).context
    rw [(hold hq).2.1, (hold hr).2.1]
    exact h.separate q (hmem hq).1 r (hmem hr).1 hqr

/-- A death is as a tick without a current process, of the list before the dead one. -/
lemma killAndSchedule_ok (h : Sound s (a ++ s.currentProcess :: b))
    (hf : a.length + 3 ≤ fuel ∨ killAndSchedule fuel s c ≠ .error .fuel) :
    ∃ t, Sound t a ∧ t.currentProcess = 0 ∧ t.idleProcess = s.idleProcess ∧
      killAndSchedule fuel s c = .ok (t.contexts (t.procs (nextProcess t)).context, ticked t c (nextProcess t)) := by
  have hc : s.currentProcess ≠ 0 := h.ne_zero (by simp)
  obtain ⟨hkill, hlist⟩ := h.killCurrentProcess_ok
  have hx : ((dying s).procs s.currentProcess).context ≠ 0 := by
    rw [dying_self]
    exact (h.equipped _ (by simp)).1
  have hself : ((saved (dying s) c).procs s.currentProcess).status = .dead := congrArg Process.status (dying_self s)
  have he : killAndSchedule fuel s c = (skipProcesses fuel (saved (dying s) c) >>= switchProcess) >>=
      fun r => .ok (r.2.contexts r.1, r.2) := by
    have hi : ¬ (!(dying s).initialized) = true := by simp [dying, Sched.put, h.initialized]
    rw [killAndSchedule, hkill, ok_bind, handleSchedule, if_neg hi, schedule_preempt (s := dying s) c hc hx]
    rfl
  rw [he] at hf ⊢
  cases fuel with
  | zero => simp [skipProcesses] at hf
  | succ fuel =>
    rw [skipProcesses_dead (s := saved (dying s) c) hc hself] at hf ⊢
    obtain ⟨t, ht, htl, hrel, hnext⟩ := deleteProcess_ok (s := saved (dying s) c) hlist
      (hf.imp (show _ → _ ≤ fuel by omega) (mt fun he => by
        change deleteProcess fuel (saved (dying s) c) (saved (dying s) c).currentProcess = _ at he
        rw [he]
        rfl))
    rw [List.append_nil] at htl
    have hcur : t.currentProcess = s.currentProcess := hrel.currentProcess
    have hdead : (t.procs s.currentProcess).next = 0 :=
      (hnext _ h.current_notMem).trans (congrArg Process.next (dying_self s))
    change deleteProcess fuel (saved (dying s) c) (saved (dying s) c).currentProcess = _ at ht
    rw [ht, ok_bind, hcur, Sched.load_ok hc, ok_bind, hdead] at hf ⊢
    have hsound := h.dead_deleted htl hrel hnext
    rw [← schedule_first (s := { t with currentProcess := 0 }) c rfl] at hf ⊢
    rw [hsound.schedule_ok c (hf.imp (by omega) (mt fun he => by rw [he, error_bind]))]
    refine ⟨_, hsound, rfl, hrel.idleProcess, rfl⟩

end Sound

lemma LifeStep.sound {e : Life} (h : Sound s l) (hs : LifeStep s e t) : ∃ l', Sound t l' := by
  cases hs with
  | event he =>
    obtain ⟨l', hl', _⟩ := he.sound h
    exact ⟨l', hl'⟩
  | kill hl hm hk =>
    obtain rfl := Chain.unique hl h.listed
    obtain ⟨a, b, rfl⟩ := List.append_of_mem hm
    obtain ⟨u, hu, _, _, hok⟩ := h.killAndSchedule_ok (.inr (ne_fuel hk))
    obtain ⟨_, rfl⟩ := Prod.mk.injEq .. ▸ Except.ok.inj (hok.symm.trans hk)
    exact ⟨a, hu.tick hu.nextProcess_mem⟩

lemma run_life_sound {es : List Life} (h : Sound s l) (hr : Run LifeStep s es t) : ∃ l', Sound t l' := by
  refine hr.invariant (I := fun u => ∃ l', Sound u l') ?_ ⟨l, h⟩
  rintro u e u' ⟨m, hm⟩ hs
  exact hs.sound hm

lemma exists_running : ∃ s₀ es s r, initScheduler 1 blank 16 32 48 0 0 0 0 = .ok s₀ ∧ Run LifeStep s₀ es s ∧
    Listed s [64, 128] ∧ s.currentProcess = 64 ∧ s.idleProcess = 16 ∧
    killAndSchedule 3 s (initialContext 8 0 0 0) = .ok r ∧ Listed r.2 [] ∧ r.2.currentProcess = 16 := by
  obtain ⟨s₀, s₁, s₂, s, r, h₀, hl₀, ha₀, h₁, hl₁, ha₁, h₂, ht, hl, hc, hi, hk, hr, hrc⟩ :
      ∃ s₀ s₁ s₂ s r, initScheduler 1 blank 16 32 48 0 0 0 0 = .ok s₀ ∧ Listed s₀ [] ∧
        (∀ q ∈ s₀.idleProcess :: [], q ≠ 64 ∧ (s₀.procs q).context ≠ 80) ∧
        addProcess 1 (writeProcess s₀ 64 ⟨1, .ready, 80, 96, 0⟩ (initialContext 4 0 0 0)) 64 = .ok s₁ ∧
        Listed s₁ [64] ∧ (∀ q ∈ s₁.idleProcess :: [64], q ≠ 128 ∧ (s₁.procs q).context ≠ 144) ∧
        addProcess 2 (writeProcess s₁ 128 ⟨2, .ready, 144, 160, 0⟩ (initialContext 4 0 0 0)) 128 = .ok s₂ ∧
        handleSchedule 2 s₂ (initialContext 8 0 0 0) = .ok (initialContext 4 0 0 0, s) ∧
        Listed s [64, 128] ∧ s.currentProcess = 64 ∧ s.idleProcess = 16 ∧
        killAndSchedule 3 s (initialContext 8 0 0 0) = .ok r ∧ Listed r.2 [] ∧ r.2.currentProcess = 16 :=
    ⟨_, _, _, _, _, rfl, rfl, by decide, rfl, ⟨rfl, by decide, rfl⟩, by decide, rfl, rfl,
      ⟨rfl, by decide, rfl, by decide, rfl⟩, rfl, rfl, rfl, rfl, rfl⟩
  have hr₀ : Fresh s₀ 64 ⟨1, .ready, 80, 96, 0⟩ := .of_listed hl₀ (by decide) rfl rfl (by decide) (by decide) ha₀
  have hr₁ : Fresh s₁ 128 ⟨2, .ready, 144, 160, 0⟩ := .of_listed hl₁ (by decide) rfl rfl (by decide) (by decide) ha₁
  exact ⟨s₀, _, s, r, h₀, (((Run.nil s₀).snoc (.event (.add hr₀ h₁))).snoc (.event (.add hr₁ h₂))).snoc
    (.event (.tick ht)), hl, hc, hi, hk, hr, hrc⟩

theorem kill_removes_iff {m s₀ : Sched} {p x vmm runIdle esp cr0 cr3 : ℕ} {es : List Life} (hp : p ≠ 0) (hx : x ≠ 0)
    (hv : vmm ≠ 0) (h₀ : initScheduler fuel m p x vmm runIdle esp cr0 cr3 = .ok s₀)
    (h : Run LifeStep s₀ es s) (hl : Listed s (a ++ s.currentProcess :: b)) :
    (∀ fuel, a.length + 3 ≤ fuel → ∃ r, killAndSchedule fuel s c = .ok r) ∧
    ∀ fuel v t, killAndSchedule fuel s c = .ok (v, t) →
      (Listed t (a ++ b) ∧ t.currentProcess = (b ++ a).headD s.idleProcess ↔ b = []) := by
  obtain ⟨l, hs⟩ := run_life_sound (initScheduler_started hp hx hv h₀).sound h
  obtain rfl := Chain.unique hl hs.listed
  refine ⟨fun fuel hf => ?_, fun fuel v t hk => ?_⟩
  · obtain ⟨_, _, _, _, hok⟩ := hs.killAndSchedule_ok (c := c) (.inl hf)
    exact ⟨_, hok⟩
  · obtain ⟨u, hu, hc, hi, hok⟩ := hs.killAndSchedule_ok (.inr (ne_fuel hk))
    obtain ⟨_, rfl⟩ := Prod.mk.injEq .. ▸ Except.ok.inj (hok.symm.trans hk)
    have hlist : Listed (ticked u c (nextProcess u)) a := (hu.tick hu.nextProcess_mem).listed
    refine ⟨fun h => ?_, ?_⟩
    · simpa using Chain.unique h.1 hlist
    · rintro rfl
      have hna : u.currentProcess ∉ a := fun hm => hu.listed.ne_zero hm hc
      refine ⟨by rwa [List.append_nil], ?_⟩
      rw [List.nil_append, ← hi]
      exact hu.nextProcess_first hna

theorem kill_removes_iff_first : ∃ s₀ es s, initScheduler 1 blank 16 32 48 0 0 0 0 = .ok s₀ ∧
    Run LifeStep s₀ es s ∧ ∀ v t, killAndSchedule 3 s (initialContext 8 0 0 0) = .ok (v, t) →
      (Listed t [128] ∧ t.currentProcess = 128 ↔ [128] = []) := by
  obtain ⟨s₀, es, s, _, h₀, hr, hl, hc, _⟩ := exists_running
  have hl' : Listed s ([] ++ s.currentProcess :: [128]) := by rwa [hc]
  exact ⟨s₀, es, s, h₀, hr, (kill_removes_iff (by decide) (by decide) (by decide) h₀ hr hl').2 3⟩

/-- With the first of two processes the second one is gone, and the idle process runs. -/
theorem kill_loses_successor : ∃ s₀ es s r, initScheduler 1 blank 16 32 48 0 0 0 0 = .ok s₀ ∧
    Run LifeStep s₀ es s ∧ Listed s [64, 128] ∧ s.currentProcess = 64 ∧
    killAndSchedule 3 s (initialContext 8 0 0 0) = .ok r ∧ ¬ Listed r.2 [128] ∧ r.2.currentProcess = s.idleProcess := by
  obtain ⟨s₀, es, s, r, h₀, hr, hl, hc, hi, hk, hlr, hrc⟩ := exists_running
  refine ⟨s₀, es, s, r, h₀, hr, hl, hc, hk, ?_, hrc.trans hi.symm⟩
  intro h
  simpa using Chain.unique h hlr

end WordOS.Kernel
