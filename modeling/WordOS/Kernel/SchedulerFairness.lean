import WordOS.Kernel.SchedulerRuns

/-! Round-robin order: what every tick chooses, and that a full round of ticks chooses everyone once. -/

namespace WordOS.Kernel

open Machine Lib.LinkedList Lib.Runs

def chosen (es : List Event) : List Ptr :=
  es.filterMap fun
    | .ticked _ _ n _ => some n
    | _ => none

/-- What a tick from `s` to `t` owes the processes of the list `l`. -/
structure RoundRobin (s : Sched) (l : List Ptr) (t : Sched) : Prop where
  listed : Listed t l
  mem : t.currentProcess ∈ t.idleProcess :: l
  running : (t.procs t.currentProcess).status = .running
  others : ∀ q ∈ t.idleProcess :: l, q ≠ t.currentProcess → (t.procs q).status = .ready
  successor : ∀ a q b, l = a ++ s.currentProcess :: q :: b → t.currentProcess = q
  wrap : s.currentProcess = 0 ∨ s.currentProcess = s.idleProcess ∨ l.getLast? = some s.currentProcess →
    t.currentProcess = l.headD s.idleProcess
  idle : t.currentProcess = s.idleProcess ↔ l = []

/-- The listed processes in the order in which ticks from `s` on choose them. -/
def Upcoming (s : Sched) (l u : List Ptr) : Prop :=
  ∃ a b, l = a ++ b ∧ u = b ++ a ∧
    (a = [] ∧ s.currentProcess ∉ l ∨ ∃ a', a = a' ++ [s.currentProcess])

variable {s t : Sched} {l u : List Ptr} {q : Ptr} {es : List Event}

lemma Upcoming.perm (h : Upcoming s l u) : u.Perm l := by
  obtain ⟨a, b, rfl, rfl, _⟩ := h
  exact List.perm_append_comm

lemma Upcoming.congr (h : Upcoming s l u) (ht : t.currentProcess = s.currentProcess) : Upcoming t l u := by
  rwa [Upcoming, ht]

lemma Upcoming.rotate (h : Upcoming s l (q :: u)) (ht : t.currentProcess = q) : Upcoming t l (u ++ [q]) := by
  obtain ⟨a, b, rfl, he, _⟩ := h
  cases b with
  | nil =>
    obtain rfl : a = q :: u := by simpa using he.symm
    exact ⟨[q], u, by simp, rfl, .inr ⟨[], by simp [ht]⟩⟩
  | cons r b =>
    obtain ⟨rfl, rfl⟩ : q = r ∧ u = b ++ a := by simpa using he
    exact ⟨a ++ [q], b, by simp, by simp, .inr ⟨a, by rw [ht]⟩⟩

namespace Sound

lemma upcoming (h : Sound s l) : ∃ u, Upcoming s l u := by
  by_cases hm : s.currentProcess ∈ l
  · obtain ⟨a, b, rfl⟩ := List.append_of_mem hm
    exact ⟨_, a ++ [s.currentProcess], b, by simp, rfl, .inr ⟨a, rfl⟩⟩
  · exact ⟨l, [], l, rfl, by simp, .inl ⟨rfl, hm⟩⟩

lemma nextProcess_upcoming (h : Sound s l) (hu : Upcoming s l u) : nextProcess s = u.headD s.idleProcess := by
  obtain ⟨a, b, hl, rfl, ⟨rfl, hm⟩ | ⟨a, rfl⟩⟩ := hu
  · rw [h.nextProcess_first hm, hl, List.nil_append, List.append_nil]
  · rw [h.nextProcess_after (a := a) (b := b) (by simpa using hl)]
    cases b with
    | nil => simp [hl]
    | cons q b => rfl

lemma roundRobin (h : Sound s l) (c : CpuStatus) : RoundRobin s l (ticked s c (nextProcess s)) := by
  have ht := h.tick (c := c) h.nextProcess_mem
  refine ⟨ht.listed, h.nextProcess_mem, if_pos rfl, ht.ready, ?_, ?_, ?_⟩
  · intro a q b hl
    exact h.nextProcess_after hl
  · rintro hw
    by_cases hm : s.currentProcess ∈ l
    · have hlast : l.getLast? = some s.currentProcess := by
        rcases hw with h0 | hi | hlast
        · exact (h.listed.ne_zero hm h0).elim
        · exact (h.idle_notMem (hi ▸ hm)).elim
        · exact hlast
      obtain ⟨a, ha⟩ := List.getLast?_eq_some_iff.mp hlast
      exact h.nextProcess_after ha
    · exact h.nextProcess_first hm
  · obtain ⟨u, hu⟩ := h.upcoming
    change nextProcess s = s.idleProcess ↔ _
    rw [h.nextProcess_upcoming hu]
    cases u with
    | nil => simpa using hu.perm.symm.eq_nil
    | cons q u =>
      have hq : q ∈ l := hu.perm.mem_iff.mp (by simp)
      exact iff_of_false (fun he => h.idle_notMem (he ▸ hq)) (List.ne_nil_of_mem hq)

lemma chosen_upcoming (h : Sound s l) (hu : Upcoming s l u) (hr : Run Step s es t) (ht : Sound t l)
    (hn : (chosen es).length ≤ l.length) : ∃ w, u = chosen es ++ w ∧ Upcoming t l (w ++ chosen es) := by
  induction hr with
  | nil => exact ⟨u, rfl, by simpa [chosen] using hu⟩
  | @snoc r _ es e hr hs ih =>
    obtain ⟨l', hl', hp⟩ := run_sound h hr
    have hsame : ∀ {l''}, Sound _ l'' → l'' = l := fun hl'' => Chain.unique hl''.listed ht.listed
    have hc : chosen (es ++ [e]) = chosen es ++ chosen [e] := List.filterMap_append
    rw [hc, List.length_append] at hn
    obtain ⟨p, _, _, _, _, _, hadd⟩ | ⟨rfl, rfl, hidle⟩ | ⟨c, rfl, rfl, htick⟩ := hs.cases hl'
    · have := congrArg List.length (hsame hadd)
      have := hp.length_le
      simp only [List.length_append, List.length_singleton] at *
      omega
    · obtain rfl := hsame hidle
      obtain ⟨w, hw, hup⟩ := ih hl' (by omega)
      rw [hc, show chosen [.idled] = [] from rfl, List.append_nil]
      exact ⟨w, hw, hup.congr rfl⟩
    · obtain rfl := hsame htick
      obtain ⟨w, rfl, hup⟩ := ih hl' (by omega)
      rw [hc]
      have hlen := hup.perm.length_eq
      simp only [chosen, List.filterMap_cons, List.filterMap_nil, List.length_singleton, List.length_append] at *
      cases w with
      | nil => simp at hlen; omega
      | cons q w =>
        have hq : nextProcess r = q := hl'.nextProcess_upcoming hup
        rw [hq]
        exact ⟨w, by simp, by simpa using Upcoming.rotate hup rfl⟩

lemma chosen_perm (h : Sound s l) (hr : Run Step s es t) (ht : Listed t l)
    (hn : (chosen es).length = l.length) : (chosen es).Perm l := by
  obtain ⟨u, hu⟩ := h.upcoming
  obtain ⟨l', hl', hp⟩ := run_sound h hr
  obtain rfl := Chain.unique hl'.listed ht
  obtain ⟨w, rfl, _⟩ := h.chosen_upcoming hu hr hl' (le_of_eq hn)
  have hlen := hu.perm.length_eq
  obtain rfl : w = [] := by
    rw [List.length_append] at hlen
    exact List.length_eq_zero_iff.mp (by omega)
  simpa using hu.perm

end Sound

structure Fair (s : Sched) (l : List Ptr) : Prop where
  listed : Listed s l
  nodup : l.Nodup
  returns : ∀ fuel c, 2 ≤ fuel → ∃ r, handleSchedule fuel s c = .ok r
  tick : ∀ fuel c v t, handleSchedule fuel s c = .ok (v, t) → RoundRobin s l t
  round : ∀ es t, Run Step s es t → Listed t l → l ≠ [] → (chosen es).length = l.length → (chosen es).Perm l

lemma Sound.fair (h : Sound s l) : Fair s l := by
  refine ⟨h.listed, Chain.nodup h.listed, ?_, ?_, ?_⟩
  · intro fuel c hf
    exact ⟨_, h.handleSchedule_ok (.inl hf)⟩
  · intro fuel c v t ht
    have hok := h.handleSchedule_ok (.inr (ne_fuel ht))
    obtain ⟨_, rfl⟩ := Prod.mk.injEq .. ▸ Except.ok.inj (hok.symm.trans ht)
    exact h.roundRobin c
  · intro es t hr ht _ hn
    exact h.chosen_perm hr ht hn

theorem run_round_robin {fuel : ℕ} {m s₀ : Sched} {p x v runIdle esp cr0 cr3 : ℕ}
    (hp : p ≠ 0) (hx : x ≠ 0) (hv : v ≠ 0) (h₀ : initScheduler fuel m p x v runIdle esp cr0 cr3 = .ok s₀)
    (h : Run Step s₀ es s) : ∃ l, Fair s l := by
  obtain ⟨l, hl, _⟩ := run_sound (initScheduler_started hp hx hv h₀).sound h
  exact ⟨l, hl.fair⟩

theorem run_round_robin_lone : ∃ s₀ s, initScheduler 1 blank 16 32 48 0 0 0 0 = .ok s₀ ∧
    Run Step s₀ [.added 64 (initialContext 4 0 0 0)] s ∧ ∃ l, Fair s l := by
  obtain ⟨s₀, s, h₀, hs⟩ := exists_added
  exact ⟨s₀, s, h₀, hs, run_round_robin (by decide) (by decide) (by decide) h₀ hs⟩

end WordOS.Kernel
