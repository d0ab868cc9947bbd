import WordOS.Kernel.Scheduler

/-! What the functions of `scheduler.c` do to the process list. -/

namespace WordOS.Kernel

open Machine Lib.LinkedList

def Listed (s : Sched) (l : List Ptr) : Prop := Chain (fun q => (s.procs q).next) s.processListHead l

@[simp] lemma setStatus_self (p : Process) : p.setStatus p.status = p := rfl

@[simp] lemma setStatus_setStatus (a b : ProcessStatus) (p : Process) :
    (p.setStatus a).setStatus b = p.setStatus b := rfl

@[simp] lemma put_procs_self (s : Sched) (p : Ptr) (f) : (s.put p f).procs p = f (s.procs p) := by
  simp [Sched.put]

lemma put_procs_ne {s : Sched} {p q : Ptr} {f} (h : q ≠ p) : (s.put p f).procs q = s.procs q := by
  simp [Sched.put, h]

lemma put_procs (s : Sched) (p : Ptr) (f) (q : Ptr) :
    (s.put p f).procs q = if q = p then f (s.procs q) else s.procs q := by
  by_cases h : q = p
  · subst h
    simp
  · rw [put_procs_ne h, if_neg h]

lemma Sched.load_ok {s : Sched} {p : Ptr} (h : p ≠ 0) : s.load p = .ok (s.procs p) := if_neg h

lemma Sched.modify_ok {s : Sched} {p : Ptr} (h : p ≠ 0) (f) : s.modify p f = .ok (s.put p f) := if_neg h

/-- Two states that differ in links only. -/
structure Relinked (s s' : Sched) : Prop where
  status : ∀ q, (s'.procs q).status = (s.procs q).status
  context : ∀ q, (s'.procs q).context = (s.procs q).context
  vmmObj : ∀ q, (s'.procs q).vmmObj = (s.procs q).vmmObj
  contexts : s'.contexts = s.contexts
  currentProcess : s'.currentProcess = s.currentProcess
  idleProcess : s'.idleProcess = s.idleProcess
  initialized : s'.initialized = s.initialized

lemma relinked_setNext (s : Sched) (p q : Ptr) : Relinked s (s.put p (·.setNext q)) := by
  have h : ∀ r, ∃ n, (s.put p (·.setNext q)).procs r = (s.procs r).setNext n := by
    intro r
    by_cases hr : r = p
    · subst hr
      exact ⟨q, put_procs_self ..⟩
    · exact ⟨(s.procs r).next, put_procs_ne hr⟩
  refine ⟨?_, ?_, ?_, rfl, rfl, rfl, rfl⟩
  all_goals
    intro r
    obtain ⟨n, hn⟩ := h r
    rw [hn]
    rfl

lemma put_setNext_links (s : Sched) (p q : Ptr) :
    (fun r => ((s.put p (·.setNext q)).procs r).next) = Function.update (fun r => (s.procs r).next) p q := by
  funext r
  by_cases hr : r = p
  · subst hr
    simp [Process.setNext]
  · rw [put_procs_ne hr, Function.update_of_ne hr]

lemma lastProcess_ok {fuel : ℕ} {s : Sched} {p q : Ptr} {l : List Ptr}
    (h : Chain (fun q => (s.procs q).next) p (l ++ [q]))
    (hf : l.length < fuel ∨ lastProcess fuel s p ≠ .error .fuel) : lastProcess fuel s p = .ok q := by
  induction fuel generalizing p l with
  | zero => simp [lastProcess] at hf
  | succ fuel ih =>
    cases l with
    | nil =>
      obtain ⟨rfl, h0, hn⟩ := h
      simp only [Seg] at hn
      simp [lastProcess, Sched.load, h0, hn]
    | cons a l =>
      obtain ⟨rfl, h0, hn⟩ := h
      have hne : (s.procs p).next ≠ 0 := Chain.start_ne_zero (show Chain _ _ (_ ++ _ :: []) from hn)
      simp only [lastProcess, Sched.load, if_neg h0, ok_bind, if_neg hne] at hf ⊢
      exact ih hn (hf.imp_left (by simp))

lemma addProcess_ok {fuel : ℕ} {s : Sched} {p : Ptr} {l : List Ptr} (h : Listed s l) (hp : p ≠ 0) (hl : p ∉ l)
    (hn : (s.procs p).next = 0) (hf : l.length < fuel ∨ addProcess fuel s p ≠ .error .fuel) :
    ∃ s', addProcess fuel s p = .ok s' ∧ Listed s' (l ++ [p]) ∧ Relinked s s' ∧
      ∀ q, q ∉ l → (s'.procs q).next = (s.procs q).next := by
  rcases List.eq_nil_or_concat l with rfl | ⟨l, q, rfl⟩
  · have h0 : s.processListHead = 0 := h
    refine ⟨{ s with processListHead := p }, by rw [addProcess, if_pos h0]; rfl, ⟨rfl, hp, hn⟩,
      ⟨fun _ => rfl, fun _ => rfl, fun _ => rfl, rfl, rfl, rfl, rfl⟩, fun _ _ => rfl⟩
  · rw [List.concat_eq_append] at h hl hf ⊢
    have h0 : s.processListHead ≠ 0 := Chain.start_ne_zero (show Chain _ _ (_ ++ _ :: []) from h)
    have hq : q ≠ 0 := h.ne_zero (by simp)
    simp only [addProcess, if_neg h0] at hf ⊢
    have hlast := lastProcess_ok h
      (hf.imp (show _ → _ < fuel by simp only [List.length_append]; omega) (mt fun he => by rw [he, error_bind]))
    refine ⟨s.put q (·.setNext p), ?_, ?_, relinked_setNext .., ?_⟩
    · rw [hlast, ok_bind, Sched.modify, if_neg hq]
    · rw [Listed, put_setNext_links]
      exact Chain.append h hp hl hn
    · intro r hr
      rw [put_procs_ne]
      rintro rfl
      exact hr (by simp)

lemma prevProcess_ok {fuel : ℕ} {s : Sched} {p q r : Ptr} {l l' : List Ptr}
    (h : Chain (fun q => (s.procs q).next) p (l ++ r :: q :: l'))
    (hf : l.length < fuel ∨ prevProcess fuel s q p ≠ .error .fuel) : prevProcess fuel s q p = .ok r := by
  induction fuel generalizing p l with
  | zero => simp [prevProcess] at hf
  | succ fuel ih =>
    cases l with
    | nil =>
      obtain ⟨rfl, h0, hq, _⟩ := h
      simp [prevProcess, Sched.load, h0, hq]
    | cons a l =>
      obtain ⟨rfl, h0, hn⟩ := h
      have hno : ¬ ((s.procs p).next = 0 ∨ (s.procs p).next = q) :=
        not_or.mpr ⟨Chain.start_ne_zero hn, Chain.start_ne hn⟩
      simp only [prevProcess, Sched.load, if_neg h0, ok_bind, if_neg hno] at hf ⊢
      exact ih hn (hf.imp_left (by simp))

lemma deleteProcess_ok {fuel : ℕ} {s : Sched} {p : Ptr} {l l' : List Ptr} (h : Listed s (l ++ p :: l'))
    (hf : l.length ≤ fuel ∨ deleteProcess fuel s p ≠ .error .fuel) :
    ∃ s', deleteProcess fuel s p = .ok s' ∧ Listed s' (l ++ l') ∧ Relinked s s' ∧
      ∀ q, q ∉ l → (s'.procs q).next = (s.procs q).next := by
  have hp : p ≠ 0 := h.ne_zero (by simp)
  rcases List.eq_nil_or_concat l with rfl | ⟨l, r, rfl⟩
  · obtain ⟨he, _, hn⟩ := h
    refine ⟨kfree { s with processListHead := (s.procs p).next } p, ?_, hn,
      ⟨fun _ => rfl, fun _ => rfl, fun _ => rfl, rfl, rfl, rfl, rfl⟩, fun _ _ => rfl⟩
    simp [deleteProcess, he, Sched.load, hp]
  · rw [List.concat_eq_append, List.append_assoc, List.singleton_append] at h
    have hr : r ≠ 0 := h.ne_zero (by simp)
    have hne : s.processListHead ≠ p := Chain.start_ne h
    simp only [deleteProcess, if_neg hne, Sched.load, if_neg hp] at hf ⊢
    have hprev := prevProcess_ok h
      (hf.imp (show _ → _ < fuel by rw [List.concat_eq_append, List.length_append]; exact id) (mt fun he => by rw [he, error_bind]))
    refine ⟨kfree (kfree (s.put r (·.setNext (s.procs p).next)) (s.procs p).context) p, ?_, ?_, ?_, ?_⟩
    · simp only [hprev, ok_bind, Sched.modify, if_neg hr, pure_eq]
    · rw [List.concat_eq_append, List.append_assoc, List.singleton_append]
      change Chain (fun q => ((s.put r (·.setNext (s.procs p).next)).procs q).next) s.processListHead _
      rw [put_setNext_links]
      exact Chain.remove h
    · obtain ⟨h₁, h₂, h₃, _⟩ := relinked_setNext s r (s.procs p).next
      exact ⟨h₁, h₂, h₃, rfl, rfl, rfl, rfl⟩
    · intro q hq
      change ((s.put r (·.setNext (s.procs p).next)).procs q).next = _
      rw [put_procs_ne]
      rintro rfl
      exact hq (by simp)

end WordOS.Kernel
