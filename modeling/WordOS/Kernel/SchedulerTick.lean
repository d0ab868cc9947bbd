import WordOS.Kernel.SchedulerList

/-! One timer tick of a sound scheduler. -/

namespace WordOS.Kernel

open Machine Lib.LinkedList

/-- The processes of `l` are listed, and all processes but the current one are ready. -/
structure Sound (s : Sched) (l : List Ptr) : Prop where
  listed : Listed s l
  initialized : s.initialized = true
  idle_ne : s.idleProcess ≠ 0
  idle_notMem : s.idleProcess ∉ l
  idle_next : (s.procs s.idleProcess).next = 0
  current : s.currentProcess = 0 ∨ s.currentProcess ∈ s.idleProcess :: l
  awake : s.currentProcess ≠ 0 →
    (s.procs s.currentProcess).status = .running ∨ (s.procs s.currentProcess).status = .idle
  ready : ∀ q ∈ s.idleProcess :: l, q ≠ s.currentProcess → (s.procs q).status = .ready
  equipped : ∀ q ∈ s.idleProcess :: l, (s.procs q).context ≠ 0 ∧ (s.procs q).vmmObj ≠ 0
  separate : ∀ q ∈ s.idleProcess :: l, ∀ r ∈ s.idleProcess :: l, q ≠ r →
    (s.procs q).context ≠ (s.procs r).context

/-- The next process in the list, with the wrap to its head, or the idle process. -/
def nextProcess (s : Sched) : Ptr :=
  if s.currentProcess ≠ 0 ∧ (s.procs s.currentProcess).next ≠ 0 then (s.procs s.currentProcess).next
  else if s.processListHead ≠ 0 then s.processListHead
  else s.idleProcess

def saved (s : Sched) (context : CpuStatus) : Sched :=
  { s with contexts := Function.update s.contexts (s.procs s.currentProcess).context context }

def ticked (s : Sched) (context : CpuStatus) (n : Ptr) : Sched :=
  { s with
    contexts := if s.currentProcess = 0 then s.contexts else (saved s context).contexts
    procs := fun q => (s.procs q).setStatus
      (if q = n then .running
      else if s.currentProcess ≠ 0 ∧ q = s.currentProcess then .ready
      else (s.procs q).status)
    currentProcess := n
    currentVmm := (s.procs n).vmmObj }

namespace Sound

variable {s : Sched} {l : List Ptr}

lemma ne_zero (h : Sound s l) {q : Ptr} (hq : q ∈ s.idleProcess :: l) : q ≠ 0 := by
  rcases List.mem_cons.mp hq with rfl | hq
  · exact h.idle_ne
  · exact h.listed.ne_zero hq

lemma nextProcess_after (h : Sound s l) {a b : List Ptr} (hl : l = a ++ s.currentProcess :: b) :
    nextProcess s = (b ++ l).headD s.idleProcess := by
  have hc : s.currentProcess ≠ 0 := h.ne_zero (by simp [hl])
  have hlist := h.listed
  rw [Listed, hl] at hlist
  have hn : (s.procs s.currentProcess).next = b.headD 0 := Chain.next_eq hlist
  have hh : s.processListHead = l.headD 0 := Chain.head h.listed
  cases b with
  | nil =>
    have h0 : s.processListHead ≠ 0 := Chain.start_ne_zero hlist
    simp only [List.headD_nil] at hn
    rw [nextProcess, if_neg (by simp [hn]), if_pos h0, hh, List.nil_append]
    cases l with
    | nil => simp at hl
    | cons q l => rfl
  | cons q b =>
    have hq : q ≠ 0 := h.ne_zero (by simp [hl])
    simp only [List.headD_cons] at hn
    rw [nextProcess, if_pos ⟨hc, by rwa [hn]⟩, hn]
    rfl

lemma nextProcess_first (h : Sound s l) (hl : s.currentProcess ∉ l) : nextProcess s = l.headD s.idleProcess := by
  have hn : ¬ (s.currentProcess ≠ 0 ∧ (s.procs s.currentProcess).next ≠ 0) := by
    rintro ⟨hc, hn⟩
    rcases List.mem_cons.mp (h.current.resolve_left hc) with he | hm
    · exact hn (by rw [he]; exact h.idle_next)
    · exact hl hm
  have hh : s.processListHead = l.headD 0 := Chain.head h.listed
  rw [nextProcess, if_neg hn, hh]
  cases l with
  | nil => rfl
  | cons q l => exact if_pos (h.ne_zero (by simp))

lemma nextProcess_mem (h : Sound s l) : nextProcess s ∈ s.idleProcess :: l := by
  have hd : ∀ l' : List Ptr, (∀ q ∈ l', q ∈ l) → l'.headD s.idleProcess ∈ s.idleProcess :: l := by
    intro l' hl'
    cases l' with
    | nil => simp
    | cons q l' => exact List.mem_cons_of_mem _ (hl' q (by simp))
  by_cases hm : s.currentProcess ∈ l
  · obtain ⟨a, b, hl⟩ := List.append_of_mem hm
    rw [h.nextProcess_after hl]
    refine hd _ fun q hq => ?_
    rcases List.mem_append.mp hq with hq | hq
    · simp [hl, hq]
    · exact hq
  · rw [h.nextProcess_first hm]
    exact hd _ fun _ => id

end Sound

lemma switchProcess_ok {s : Sched} {n : Ptr}
    (hn : n = if s.currentProcess ≠ 0 then s.currentProcess
      else if s.processListHead ≠ 0 then s.processListHead else s.idleProcess)
    (h0 : n ≠ 0) (hv : (s.procs n).vmmObj ≠ 0) :
    switchProcess s = .ok ((s.procs n).context,
      { s.put n (·.setStatus .running) with currentProcess := n, currentVmm := (s.procs n).vmmObj }) := by
  have hs : (if s.currentProcess = 0 then
      if s.processListHead ≠ 0 then { s with currentProcess := s.processListHead }
      else { s with currentProcess := s.idleProcess }
      else s) = { s with currentProcess := n } := by
    rw [hn]
    split_ifs <;> simp_all
  simp only [switchProcess, hs, Sched.modify, if_neg h0, ok_bind]
  change (Sched.load _ n >>= _) = _
  rw [Sched.load_ok h0, ok_bind, put_procs_self]
  exact bind_eq_ok.mpr ⟨_, if_neg hv, rfl⟩

lemma skipProcesses_awake {fuel : ℕ} {s : Sched} {n : Ptr} (hc : s.currentProcess ≠ 0)
    (hs : (s.procs s.currentProcess).status = .running ∨ (s.procs s.currentProcess).status = .idle)
    (hn : (s.procs s.currentProcess).next = n) (hnc : n ≠ s.currentProcess)
    (hr : n ≠ 0 → (s.procs n).status = .ready) (hf : 2 ≤ fuel ∨ skipProcesses fuel s ≠ .error .fuel) :
    skipProcesses fuel s = .ok { s.put s.currentProcess (·.setStatus .ready) with currentProcess := n } := by
  have h₁ : (s.procs s.currentProcess).status ≠ .ready := by rcases hs with h | h <;> simp [h]
  have h₂ : (s.procs s.currentProcess).status ≠ .dead := by rcases hs with h | h <;> simp [h]
  have hstep : ∀ fuel, skipProcesses (fuel + 1) s =
      skipProcesses fuel { s.put s.currentProcess (·.setStatus .ready) with currentProcess := n } := by
    intro fuel
    rw [skipProcesses, if_neg hc, Sched.load_ok hc, ok_bind, if_neg h₁, if_neg h₂, Sched.modify_ok hc, ok_bind]
    change (Sched.load _ s.currentProcess >>= _) = _
    rw [Sched.load_ok hc, ok_bind, put_procs_self, ← hn]
    rfl
  rcases fuel with _ | _ | fuel
  · simp [skipProcesses] at hf
  · rw [hstep] at hf
    simp [skipProcesses] at hf
  · rw [hstep, skipProcesses]
    by_cases h0 : n = 0
    · exact if_pos h0
    · rw [if_neg h0, Sched.load_ok h0, ok_bind]
      have hp : (s.put s.currentProcess (·.setStatus .ready)).procs n = s.procs n := put_procs_ne hnc
      rw [hp, if_pos (hr h0), pure_eq]

lemma schedule_first {fuel : ℕ} {s : Sched} (c : CpuStatus) (h : s.currentProcess = 0) :
    schedule fuel s c = skipProcesses fuel s >>= switchProcess := by
  rw [schedule, if_neg (not_not.mpr h)]
  rfl

lemma schedule_preempt {fuel : ℕ} {s : Sched} (c : CpuStatus) (h : s.currentProcess ≠ 0)
    (hx : (s.procs s.currentProcess).context ≠ 0) :
    schedule fuel s c = skipProcesses fuel (saved s c) >>= switchProcess := by
  rw [schedule, if_pos h, saveContext, Sched.load_ok h, ok_bind, if_neg hx]
  rfl

namespace Sound

variable {s : Sched} {l : List Ptr}

lemma next_cases (h : Sound s l) (hc : s.currentProcess ≠ 0) :
    (s.procs s.currentProcess).next ≠ s.currentProcess ∧ ((s.procs s.currentProcess).next ≠ 0 →
      (s.procs s.currentProcess).next ∈ l) := by
  rcases List.mem_cons.mp (h.current.resolve_left hc) with he | hm
  · rw [he, h.idle_next]
    exact ⟨Ne.symm h.idle_ne, fun hn => (hn rfl).elim⟩
  · obtain ⟨a, b, hl⟩ := List.append_of_mem hm
    have hlist := h.listed
    have hd := Chain.nodup h.listed
    rw [Listed, hl] at hlist
    rw [show (s.procs s.currentProcess).next = b.headD 0 from Chain.next_eq hlist]
    rw [hl] at hd
    cases b with
    | nil => exact ⟨Ne.symm hc, fun hn => (hn rfl).elim⟩
    | cons q b =>
      simp only [List.headD_cons]
      refine ⟨?_, fun _ => by simp [hl]⟩
      rintro rfl
      simp [List.nodup_append] at hd

lemma schedule_ok (h : Sound s l) {fuel : ℕ} (c : CpuStatus) (hf : 2 ≤ fuel ∨ schedule fuel s c ≠ .error .fuel) :
    schedule fuel s c = .ok ((s.procs (nextProcess s)).context, ticked s c (nextProcess s)) := by
  have hn := h.nextProcess_mem
  have h0 := h.ne_zero hn
  by_cases hc : s.currentProcess = 0
  · rw [schedule_first c hc] at hf ⊢
    have hskip : skipProcesses fuel s = .ok s := by
      cases fuel with
      | zero => exact (hf.resolve_left (by omega) rfl).elim
      | succ fuel => rw [skipProcesses, if_pos hc]
    rw [hskip, ok_bind, switchProcess_ok (n := nextProcess s) (by simp [nextProcess, hc]) h0 (h.equipped _ hn).2]
    have hprocs : (s.put (nextProcess s) (·.setStatus .running)).procs =
        (ticked s c (nextProcess s)).procs := by
      funext q
      rw [put_procs]
      by_cases hq : q = nextProcess s <;> simp [ticked, hq, hc]
    exact congrArg _ (Prod.ext rfl (Sched.ext hprocs (by simp [ticked, Sched.put, hc]) rfl rfl rfl rfl rfl rfl rfl))
  · have hm := h.current.resolve_left hc
    rw [schedule_preempt c hc (h.equipped _ hm).1] at hf ⊢
    rw [skipProcesses_awake (s := saved s c) hc (h.awake hc) rfl (h.next_cases hc).1
      (fun hz => h.ready _ (List.mem_cons_of_mem _ ((h.next_cases hc).2 hz)) (h.next_cases hc).1)
      (hf.imp_right (mt fun he => by rw [he, error_bind])), ok_bind]
    set t : Sched := { (saved s c).put s.currentProcess (·.setStatus .ready) with
      currentProcess := (s.procs s.currentProcess).next }
    have ht : ∀ q, t.procs q = if q = s.currentProcess then (s.procs q).setStatus .ready else s.procs q :=
      put_procs _ _ _
    have hx : ∀ q, (t.procs q).context = (s.procs q).context ∧ (t.procs q).vmmObj = (s.procs q).vmmObj := by
      intro q
      rw [ht]
      split_ifs <;> exact ⟨rfl, rfl⟩
    have hnext : nextProcess s = if t.currentProcess ≠ 0 then t.currentProcess
        else if t.processListHead ≠ 0 then t.processListHead else t.idleProcess := by
      simp only [nextProcess, ne_eq, hc, not_false_eq_true, true_and]
      rfl
    have h := switchProcess_ok (s := t) hnext h0 (by rw [(hx _).2]; exact (h.equipped _ hn).2)
    refine h.trans (congrArg _ (Prod.ext (hx _).1 (Sched.ext ?_ ?_ rfl rfl rfl rfl rfl (hx _).2 rfl)))
    · funext q
      change (t.put (nextProcess s) _).procs q = _
      rw [put_procs, ht]
      simp only [ticked, ne_eq, hc, not_false_eq_true, true_and]
      split_ifs <;> simp
    · simp [ticked, hc, t, Sched.put]

end Sound

end WordOS.Kernel
