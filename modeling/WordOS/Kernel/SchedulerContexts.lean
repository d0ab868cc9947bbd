import WordOS.Kernel.SchedulerRuns

/-! What a process resumes with: the context it was last preempted with, or its initial one. -/

namespace WordOS.Kernel

open Machine Lib.LinkedList Lib.Runs

/-- The context a history of events gave `p` last. -/
def lastContext (p : Ptr) (es : List Event) : Option CpuStatus :=
  es.foldl (fun last e =>
    match e with
    | .added q v => if q = p then some v else last
    | .ticked q c _ _ => if q = p then some c else last
    | .idled => last) none

/-- The saved contexts are those the history `es` gave. -/
def Remembers (s : Sched) (l : List Ptr) (es : List Event) : Prop :=
  ∀ q ∈ s.idleProcess :: l, lastContext q es = some (s.contexts (s.procs q).context)

section

variable {p q n : Ptr} {v c : CpuStatus} {es : List Event}

lemma lastContext_added :
    lastContext p (es ++ [.added q v]) = if q = p then some v else lastContext p es := by
  rw [lastContext, List.foldl_append]
  rfl

lemma lastContext_ticked :
    lastContext p (es ++ [.ticked q c n v]) = if q = p then some c else lastContext p es := by
  rw [lastContext, List.foldl_append]
  rfl

lemma lastContext_idled : lastContext p (es ++ [.idled]) = lastContext p es := by
  rw [lastContext, List.foldl_append]
  rfl

end

variable {s t : Sched} {l : List Ptr} {c : CpuStatus} {es : List Event} {e : Event}

lemma Sound.ticked_contexts (h : Sound s l) {q : Ptr} (hq : q ∈ s.idleProcess :: l) (n : Ptr) :
    (ticked s c n).contexts (s.procs q).context =
      if s.currentProcess = q then c else s.contexts (s.procs q).context := by
  by_cases hc : s.currentProcess = 0
  · have hne : s.currentProcess ≠ q := fun he => h.ne_zero hq (he.symm.trans hc)
    simp [ticked, hc, hc ▸ hne]
  · have hx : (ticked s c n).contexts = Function.update s.contexts (s.procs s.currentProcess).context c := if_neg hc
    rw [hx]
    split_ifs with he
    · rw [he, Function.update_self]
    · exact Function.update_of_ne (h.separate q hq _ (h.current.resolve_left hc) (Ne.symm he)) ..

lemma Remembers.step (hm : Remembers s l es) (h : Sound s l) (hs : Step s e t) :
    ∃ l', Sound t l' ∧ Remembers t l' (es ++ [e]) := by
  obtain ⟨p, r, v, rfl, hr, hrel, ht⟩ | ⟨rfl, rfl, ht⟩ | ⟨c, rfl, rfl, ht⟩ := hs.cases h
  · refine ⟨_, ht, fun q hq => ?_⟩
    rw [lastContext_added, hrel.context, hrel.contexts]
    have hq' : q ∈ s.idleProcess :: l ∨ q = p := by
      rw [hrel.idleProcess] at hq
      simpa [writeProcess, or_assoc] using hq
    rcases hq' with hq' | rfl
    · obtain ⟨hproc, hctx⟩ := h.writeProcess_apart (v := v) hr hq'
      rw [hproc, hctx, if_neg (hr.apart l h.listed q hq').1.symm]
      exact hm q hq'
    · simp [writeProcess]
  · refine ⟨l, ht, fun q hq => ?_⟩
    rw [lastContext_idled, hm q hq, put_procs]
    split_ifs <;> rfl
  · refine ⟨l, ht, fun q hq => ?_⟩
    rw [lastContext_ticked, hm q hq]
    refine Eq.trans ?_ (congrArg some (h.ticked_contexts hq _).symm)
    split_ifs <;> rfl

lemma run_remembers {s₀ : Sched} {l : List Ptr} {es₀ : List Event} (h₀ : Sound s₀ l) (hm : Remembers s₀ l es₀)
    (h : Run Step s₀ es s) : ∃ l', Sound s l' ∧ Remembers s l' (es₀ ++ es) := by
  induction h with
  | nil => exact ⟨l, h₀, by simpa using hm⟩
  | snoc _ hs ih =>
    obtain ⟨l', hl', hm'⟩ := ih
    rw [← List.append_assoc]
    exact hm'.step hl' hs

theorem run_restores {fuel fuel' : ℕ} {m s₀ : Sched} {p x v runIdle esp cr0 cr3 : ℕ} {r : CpuStatus}
    (hp : p ≠ 0) (hx : x ≠ 0) (hv : v ≠ 0) (h₀ : initScheduler fuel m p x v runIdle esp cr0 cr3 = .ok s₀)
    (h : Run Step s₀ es s) (ht : handleSchedule fuel' s c = .ok (r, t)) :
    lastContext t.currentProcess (.added s₀.idleProcess (initialContext runIdle esp cr0 cr3) :: es ++
      [.ticked s.currentProcess c t.currentProcess r]) = some r ∧
    ∀ l, Listed s l → ∀ q ∈ s.idleProcess :: l, (t.procs q).context = (s.procs q).context ∧
      (q ≠ s.currentProcess → t.contexts (t.procs q).context = s.contexts (s.procs q).context) := by
  have hs₀ := initScheduler_started hp hx hv h₀
  have hm₀ : Remembers s₀ [] [.added s₀.idleProcess (initialContext runIdle esp cr0 cr3)] := by
    intro q hq
    obtain rfl : q = s₀.idleProcess := by simpa using hq
    simp [lastContext, hs₀.saved]
  obtain ⟨l, hl, hm⟩ := run_remembers hs₀.sound hm₀ h
  have hok := hl.handleSchedule_ok (.inr (ne_fuel ht))
  obtain ⟨hr, rfl⟩ := Prod.mk.injEq .. ▸ Except.ok.inj (hok.symm.trans ht)
  refine ⟨?_, ?_⟩
  · have hn := hl.nextProcess_mem
    rw [List.cons_append, ← List.singleton_append, ← List.append_assoc, lastContext_ticked, ← hr]
    change (if _ = nextProcess s then _ else lastContext (nextProcess s) _) = _
    rw [hl.ticked_contexts hn, hm _ hn]
    split_ifs <;> rfl
  · intro l' hl' q hq
    obtain rfl := Chain.unique hl' hl.listed
    exact ⟨rfl, fun hne => (hl.ticked_contexts hq _).trans (if_neg hne.symm)⟩

theorem run_restores_lone : ∃ s₀ s t r, initScheduler 1 blank 16 32 48 0 0 0 0 = .ok s₀ ∧
    Run Step s₀ [.added 64 (initialContext 4 0 0 0)] s ∧ handleSchedule 2 s (initialContext 8 0 0 0) = .ok (r, t) ∧
    lastContext t.currentProcess [.added s₀.idleProcess (initialContext 0 0 0 0), .added 64 (initialContext 4 0 0 0),
      .ticked s.currentProcess (initialContext 8 0 0 0) t.currentProcess r] = some r := by
  obtain ⟨s₀, s, h₀, hs⟩ := exists_added
  obtain ⟨l, hl, _⟩ := run_sound (initScheduler_started (by decide) (by decide) (by decide) h₀).sound hs
  have ht := hl.handleSchedule_ok (c := initialContext 8 0 0 0) (.inl (le_refl 2))
  exact ⟨s₀, s, _, _, h₀, hs, ht, (run_restores (by decide) (by decide) (by decide) h₀ hs ht).1⟩

end WordOS.Kernel
