import WordOS.Kernel.SchedulerList

/-! What `delete_process` gives back of a process. -/

namespace WordOS.Kernel

open Machine Lib.LinkedList

/-- The process is off the list, and its record and its context went to `kfree`, once each. -/
structure Released (s : Sched) (l : List Ptr) (p : Ptr) (t : Sched) : Prop where
  listed : Listed t (l.erase p)
  freed : t.freed.Perm (p :: (s.procs p).context :: s.freed)

variable {fuel : ℕ} {s t : Sched} {p : Ptr} {l : List Ptr}

lemma deleteProcess_freed (h : deleteProcess fuel s p = .ok t) :
    t.freed = if s.processListHead = p then p :: s.freed else p :: (s.procs p).context :: s.freed := by
  rw [deleteProcess] at h
  split_ifs at h ⊢ with hp
  · obtain ⟨q, -, h⟩ := bind_eq_ok.mp h
    obtain rfl := Except.ok.inj h
    rfl
  · obtain ⟨r, -, h⟩ := bind_eq_ok.mp h
    obtain ⟨q, hq, h⟩ := bind_eq_ok.mp h
    obtain ⟨u, hu, h⟩ := bind_eq_ok.mp h
    obtain rfl := Except.ok.inj h
    rw [Sched.load] at hq
    rw [Sched.modify] at hu
    split_ifs at hq hu
    obtain rfl := Except.ok.inj hq
    obtain rfl := Except.ok.inj hu
    rfl

lemma deleteProcess_listed (h : Listed s l) (hp : p ∈ l) (hf : l.length < fuel) :
    ∃ t, deleteProcess fuel s p = .ok t ∧ Listed t (l.erase p) := by
  obtain ⟨a, b, rfl⟩ := List.append_of_mem hp
  have hnodup : (a ++ p :: b).Nodup := Chain.nodup h
  have hpa : p ∉ a := fun hm => (List.nodup_append.mp hnodup).2.2 p hm p List.mem_cons_self rfl
  rw [List.length_append] at hf
  obtain ⟨t, ht, hl, -⟩ := deleteProcess_ok h (.inl (show a.length ≤ fuel by omega))
  refine ⟨t, ht, ?_⟩
  rw [List.erase_append_right _ hpa, List.erase_cons_head]
  exact hl

/-- Both blocks of a process are given back, unless it is the first of the list: then its context is not. -/
theorem deleteProcess_released_iff (h : Listed s l) (hp : p ∈ l) (hf : l.length < fuel) :
    (∃ t, deleteProcess fuel s p = .ok t ∧ Released s l p t) ↔ s.processListHead ≠ p := by
  obtain ⟨t, ht, hl⟩ := deleteProcess_listed h hp hf
  have hfreed := deleteProcess_freed ht
  constructor
  · rintro ⟨t', ht', hr⟩ hhead
    obtain rfl := Except.ok.inj (ht.symm.trans ht')
    rw [if_pos hhead] at hfreed
    have hlen := hr.freed.length_eq
    rw [hfreed, List.length_cons, List.length_cons, List.length_cons] at hlen
    omega
  · intro hhead
    rw [if_neg hhead] at hfreed
    exact ⟨t, ht, hl, hfreed ▸ List.Perm.refl _⟩

def twoProcesses : Sched where
  procs := fun p => if p = 0x100 then ⟨0, .ready, 0x1000, 0, 0x200⟩ else ⟨1, .dead, 0x2000, 0, 0⟩
  contexts := fun _ => initialContext 0 0 0 0
  processListHead := 0x100
  currentProcess := 0x200
  idleProcess := 0
  initialized := true
  nextFreePid := 2
  currentVmm := 0
  freed := []

lemma twoProcesses_listed : Listed twoProcesses [0x100, 0x200] := by
  refine ⟨rfl, by decide, rfl, by decide, rfl⟩

theorem deleteProcess_released_second :
    ∃ t, deleteProcess 3 twoProcesses 0x200 = .ok t ∧ Released twoProcesses [0x100, 0x200] 0x200 t :=
  (deleteProcess_released_iff twoProcesses_listed (by simp) (by decide)).mpr (by decide)

theorem deleteProcess_keeps_context : Listed twoProcesses [0x100, 0x200] ∧
    ∃ t, deleteProcess 3 twoProcesses 0x100 = .ok t ∧ t.freed = [0x100] ∧ ¬ Released twoProcesses [0x100, 0x200] 0x100 t := by
  refine ⟨twoProcesses_listed, _, rfl, rfl, fun h => ?_⟩
  exact absurd h.freed.length_eq (by decide)

end WordOS.Kernel
