import WordOS.Drivers.Keyboard

/-! Which events `next_keycode` returns while interrupts come in between. -/

namespace WordOS.Drivers

open Lib.Rings Lib.Runs

/-- A keyboard with what has happened so far. `polling` is set inside `next_keycode`, past its test; `writer` has the number
of the event that was stored last in a slot, and what is returned comes with the number its slot has. -/
structure KeyHistory where
  keyboard : Keyboard
  polling : Bool
  produced : List KeyEvent
  writer : ℕ → Option ℕ
  returned : List (Option ℕ × KeyEvent)

inductive KeyAct
  | keychange (e : KeyInput)
  | empty
  | enter
  | take

/-- An interrupt can come at any point of `next_keycode`, whose two ways from the test are `empty`, and `enter` with
a later `take`. -/
inductive KeyStep : KeyHistory → KeyAct → KeyHistory → Prop
  | keychange {s} (e : KeyInput) : KeyStep s (.keychange e)
      { s with
        keyboard := handleKeychange e s.keyboard
        produced := s.produced ++ [keyEvent e s.keyboard]
        writer := Function.update s.writer (handleKeychange e s.keyboard).keyBufferPos (some s.produced.length) }
  | empty {s} : s.polling = false → s.keyboard.keyBufferTail = s.keyboard.keyBufferPos → KeyStep s .empty s
  | enter {s} : s.polling = false → s.keyboard.keyBufferTail ≠ s.keyboard.keyBufferPos →
      KeyStep s .enter { s with polling := true }
  | take {s} : s.polling = true → KeyStep s .take
      { s with
        keyboard := (takeKeycode s.keyboard).2
        polling := false
        returned := s.returned ++ [(s.writer (takeKeycode s.keyboard).2.keyBufferTail, (takeKeycode s.keyboard).1)] }

def poweredOn : KeyHistory := ⟨⟨fun _ => ⟨0, 0⟩, 0, 0, 0⟩, false, [], fun _ => none, []⟩

namespace KeyHistory

def outstanding (s : KeyHistory) : ℕ := s.produced.length - s.returned.length

/-- What was returned are events that were produced, their numbers growing. -/
def InOrder (s : KeyHistory) : Prop :=
  ∃ numbers : List ℕ, numbers.Pairwise (· < ·) ∧ (∀ i ∈ numbers, i < s.produced.length) ∧
    s.returned.map (fun q => (q.1, some q.2)) = numbers.map fun i => (some i, s.produced[i]?)

/-- What was returned are the first events that were produced. -/
def Complete (s : KeyHistory) : Prop := s.returned.map Prod.snd <+: s.produced

def ring (s : KeyHistory) : RingBuffer (Option ℕ × KeyEvent) := s.keyboard.ring s.writer

def event (s : KeyHistory) (i : ℕ) : Option ℕ × KeyEvent := (some i, s.produced.getD i ⟨0, 0⟩)

/-- The ring holds the events produced, and `numbers` are those returned; the one to come is behind them. -/
structure Holds (s : KeyHistory) (numbers : List ℕ) : Prop where
  tracks : Tracks MAX_KEY_BUFFER_SIZE s.event s.produced.length s.returned.length s.ring
  polling : s.polling = true → s.returned.length < s.produced.length
  sorted : numbers.Pairwise (· < ·)
  lt : ∀ i ∈ numbers, i < s.produced.length
  next : s.polling = true ∨ s.keyboard.keyBufferTail ≠ s.keyboard.keyBufferPos →
    ∀ i ∈ numbers, i < nextIndex MAX_KEY_BUFFER_SIZE s.produced.length s.returned.length
  returned : s.returned = numbers.map s.event

variable {s t : KeyHistory} {numbers : List ℕ} {e : KeyInput} {a : KeyAct} {acts : List KeyAct} {i : ℕ}

lemma event_append {x : KeyEvent} {k : Keyboard} {w : ℕ → Option ℕ} (hi : i < s.produced.length) :
    ({ s with keyboard := k, produced := s.produced ++ [x], writer := w } : KeyHistory).event i = s.event i := by
  simp [event, List.getElem?_append_left hi]

lemma event_new {x : KeyEvent} {k : Keyboard} {w : ℕ → Option ℕ} :
    ({ s with keyboard := k, produced := s.produced ++ [x], writer := w } : KeyHistory).event s.produced.length =
      (some s.produced.length, x) := by
  simp [event]

namespace Holds

lemma poweredOn : Holds poweredOn [] where
  tracks := ⟨rfl, rfl, le_rfl, fun i hi => absurd hi (Nat.not_lt_zero i)⟩
  polling := fun h => by cases h
  sorted := List.Pairwise.nil
  lt := fun i hi => absurd hi List.not_mem_nil
  next := fun _ i hi => absurd hi List.not_mem_nil
  returned := rfl

lemma keychange (h : Holds s numbers) (e : KeyInput) :
    Holds
      { s with
        keyboard := handleKeychange e s.keyboard
        produced := s.produced ++ [keyEvent e s.keyboard]
        writer := Function.update s.writer (handleKeychange e s.keyboard).keyBufferPos (some s.produced.length) } numbers := by
  have hlen : (s.produced ++ [keyEvent e s.keyboard]).length = s.produced.length + 1 := by simp
  refine ⟨?_, fun hp => ?_, h.sorted, fun i hi => ?_, fun hp i hi => ?_, ?_⟩
  · rw [ring, handleKeychange_ring, hlen]
    exact (h.tracks.congr fun i hi => (event_append hi).symm).push event_new
  · rw [hlen]
    exact (h.polling hp).trans (Nat.lt_succ_self _)
  · rw [hlen]
    exact (h.lt i hi).trans (Nat.lt_succ_self _)
  · rw [hlen]
    by_cases hold : s.polling = true ∨ s.keyboard.keyBufferTail ≠ s.keyboard.keyBufferPos
    · exact (h.next hold i hi).trans_le (nextIndex_mono (Nat.le_succ _))
    · -- the reader had caught up
      have hcaught : s.keyboard.keyBufferTail = s.keyboard.keyBufferPos := by
        by_contra hne
        exact hold (.inr hne)
      rw [nextIndex_caught h.tracks.le (h.tracks.caught_iff.mp hcaught)]
      exact h.lt i hi
  · refine h.returned.trans (List.map_congr_left fun i hi => ?_)
    exact (event_append (h.lt i hi)).symm

lemma enter (h : Holds s numbers) (hne : s.keyboard.keyBufferTail ≠ s.keyboard.keyBufferPos) :
    Holds { s with polling := true } numbers := by
  have hlt : s.returned.length < s.produced.length := by
    refine lt_of_le_of_ne h.tracks.le fun he => hne ?_
    exact h.tracks.caught_iff.mpr (by rw [he])
  exact ⟨h.tracks, fun _ => hlt, h.sorted, h.lt, fun _ => h.next (.inr hne), h.returned⟩

lemma take (h : Holds s numbers) (hp : s.polling = true) :
    Holds
      { s with
        keyboard := (takeKeycode s.keyboard).2
        polling := false
        returned := s.returned ++ [(s.writer (takeKeycode s.keyboard).2.keyBufferTail, (takeKeycode s.keyboard).1)] }
      (numbers ++ [nextIndex MAX_KEY_BUFFER_SIZE s.produced.length s.returned.length]) := by
  have hlt := h.polling hp
  have hnext := nextIndex_lt (n := MAX_KEY_BUFFER_SIZE) hlt
  have hfront := h.tracks.front (by decide) hlt
  obtain ⟨hvalue, hring⟩ := takeKeycode_ring s.keyboard s.writer
  have hadvance := h.tracks.advance hlt
  rw [ring, ← hring] at hadvance
  have hlen : ∀ x, (s.returned ++ [x]).length = s.returned.length + 1 := fun x => by simp
  refine ⟨?_, fun hf => absurd hf Bool.false_ne_true, ?_, fun i hi => ?_, fun hne i hi => ?_, ?_⟩
  · rw [hlen]
    exact hadvance
  · rw [List.pairwise_append]
    refine ⟨h.sorted, List.pairwise_singleton .., fun i hi j hj => ?_⟩
    obtain rfl := List.mem_singleton.mp hj
    exact h.next (.inl hp) i hi
  · rcases List.mem_append.mp hi with hi | hi
    · exact h.lt i hi
    · obtain rfl := List.mem_singleton.mp hi
      exact hnext
  · have hbehind : (s.returned.length + 1) % MAX_KEY_BUFFER_SIZE ≠ s.produced.length % MAX_KEY_BUFFER_SIZE := by
      intro he
      exact (hne.resolve_left (by simp)) (hadvance.caught_iff.mpr he)
    rw [hlen, nextIndex_succ hlt hbehind]
    rcases List.mem_append.mp hi with hi | hi
    · exact (h.next (.inl hp) i hi).trans (Nat.lt_succ_self _)
    · obtain rfl := List.mem_singleton.mp hi
      exact Nat.lt_succ_self _
  · change s.returned ++ [_] = (numbers ++ [_]).map s.event
    rw [List.map_append, List.map_singleton, ← h.returned, ← hfront, hvalue, ring]

lemma step (h : Holds s numbers) (hs : KeyStep s a t) : ∃ numbers', Holds t numbers' := by
  cases hs with
  | keychange e => exact ⟨_, h.keychange e⟩
  | empty => exact ⟨_, h⟩
  | enter _ hne => exact ⟨_, h.enter hne⟩
  | take hp => exact ⟨_, h.take hp⟩

lemma inOrder (h : Holds s numbers) : s.InOrder := by
  refine ⟨numbers, h.sorted, h.lt, ?_⟩
  rw [h.returned, List.map_map]
  refine List.map_congr_left fun i hi => ?_
  simp [event, List.getElem?_eq_getElem (h.lt i hi)]

lemma step_room (h : Holds s (List.range s.returned.length)) (hroom : s.outstanding < MAX_KEY_BUFFER_SIZE) (hs : KeyStep s a t) :
    Holds t (List.range t.returned.length) := by
  cases hs with
  | keychange e => exact h.keychange e
  | empty => exact h
  | enter _ hne => exact h.enter hne
  | take hp =>
    have hnext : nextIndex MAX_KEY_BUFFER_SIZE s.produced.length s.returned.length = s.returned.length := by
      apply nextIndex_eq _ (h.polling hp)
      rw [outstanding] at hroom
      omega
    have ht := h.take hp
    rw [hnext, ← List.range_succ] at ht
    rw [List.length_append]
    exact ht

lemma complete (h : Holds s (List.range s.returned.length)) : s.Complete := by
  have hle := h.tracks.le
  have htake : s.returned.map Prod.snd = s.produced.take s.returned.length := by
    rw [h.returned]
    apply List.ext_getElem
    · simp [hle]
    · intro i hi hi'
      have hlt : i < s.produced.length := by
        rw [List.length_take] at hi'
        omega
      simp [event, List.getElem?_eq_getElem hlt]
  rw [Complete, htake]
  exact List.take_prefix ..

lemma outstanding_of_empty (h : Holds s numbers) (hroom : s.outstanding < MAX_KEY_BUFFER_SIZE) (hs : KeyStep s .empty t) :
    s.outstanding = 0 := by
  cases hs with
  | empty _ he =>
    rw [outstanding] at hroom ⊢
    have := (h.tracks.caught_room (by omega)).mp he
    omega

end Holds

end KeyHistory

open KeyHistory

variable {s t : KeyHistory} {acts : List KeyAct}

lemma nextKeycode_steps (h : s.polling = false) : ∃ acts t, Run KeyStep s acts t ∧ t.keyboard = (nextKeycode s.keyboard).2 ∧
    (acts = [.empty] ∧ t = s ∧ (nextKeycode s.keyboard).1 = ⟨0, 0⟩ ∨
      acts = [.enter, .take] ∧ t.returned.map Prod.snd = s.returned.map Prod.snd ++ [(nextKeycode s.keyboard).1]) := by
  by_cases he : s.keyboard.keyBufferTail = s.keyboard.keyBufferPos
  · rw [nextKeycode, if_pos he]
    exact ⟨_, s, .single (.empty h he), rfl, .inl ⟨rfl, rfl, rfl⟩⟩
  · rw [nextKeycode, if_neg he]
    have henter : Run KeyStep s [.enter] { s with polling := true } := .single (.enter h he)
    refine ⟨_, _, henter.snoc (.take rfl), rfl, .inr ⟨rfl, ?_⟩⟩
    exact List.map_append

/-- From and to a state in which fewer events than slots are to be read. -/
def RoomyStep (s : KeyHistory) (a : KeyAct) (t : KeyHistory) : Prop :=
  KeyStep s a t ∧ s.outstanding < MAX_KEY_BUFFER_SIZE ∧ t.outstanding < MAX_KEY_BUFFER_SIZE

/-- Events may be lost to a full buffer, but none is returned twice or too early; with room in the buffer none is lost, and
`next_keycode` finds it empty only if it is. -/
theorem run_returned (h : Run KeyStep poweredOn acts s) : s.InOrder ∧
    (Run RoomyStep poweredOn acts s → s.Complete ∧ ∀ t, KeyStep s .empty t → s.outstanding = 0) := by
  constructor
  · obtain ⟨numbers, hs⟩ := h.invariant (I := fun s => ∃ numbers, Holds s numbers)
      (fun _ _ _ ⟨_, h⟩ hs => h.step hs) ⟨[], Holds.poweredOn⟩
    exact hs.inOrder
  · intro hr
    obtain ⟨hs, hroom⟩ := hr.invariant (I := fun s => Holds s (List.range s.returned.length) ∧ s.outstanding < MAX_KEY_BUFFER_SIZE)
      (fun _ _ _ h hs => ⟨h.1.step_room hs.2.1 hs.1, hs.2.2⟩) ⟨Holds.poweredOn, by decide⟩
    exact ⟨hs.complete, fun t ht => hs.outstanding_of_empty hroom ht⟩

def pressA : KeyInput := ⟨fun _ => 0x1E, 0, fun _ => 0⟩

theorem run_returned_one : ∃ s, Run RoomyStep poweredOn [.keychange pressA, .enter, .take] s ∧ s.InOrder ∧ s.Complete ∧
    s.returned = [(some 0, ⟨KernelScancode.keyA.ctorIdx, 0⟩)] ∧ ∀ t, KeyStep s .empty t → s.outstanding = 0 := by
  have hkey := KeyStep.keychange (s := poweredOn) pressA
  have henter := KeyStep.enter (s := { poweredOn with
    keyboard := handleKeychange pressA poweredOn.keyboard
    produced := [keyEvent pressA poweredOn.keyboard]
    writer := Function.update poweredOn.writer 1 (some 0) }) rfl (by decide)
  have htake := KeyStep.take (s := { poweredOn with
    keyboard := handleKeychange pressA poweredOn.keyboard
    polling := true
    produced := [keyEvent pressA poweredOn.keyboard]
    writer := Function.update poweredOn.writer 1 (some 0) }) rfl
  have hrun : Run RoomyStep poweredOn [.keychange pressA, .enter, .take] _ :=
    ((Run.single ⟨hkey, by decide, by decide⟩).snoc ⟨henter, by decide, by decide⟩).snoc ⟨htake, by decide, by decide⟩
  obtain ⟨horder, himp⟩ := run_returned (hrun.mono fun _ _ _ h => h.1)
  obtain ⟨hcomplete, hempty⟩ := himp hrun
  exact ⟨_, hrun, horder, hcomplete, by decide, hempty⟩

end WordOS.Drivers
