import WordOS.Kernel.Pci

/-! `brute_force` visits every bus of a tree of buses once, where what it reads at each slot is right. -/

namespace WordOS.Kernel.Pci

open Machine Lib.Bytes Lib.Branching

/-- What a slot is visited for; `a` is the address of its header. -/
def Slot.visits (bus device a : ℕ) : Slot → List Visit
  | .absent => []
  | .bridge secondary => [.bridge bus device secondary]
  | .device => [.device a]

section

variable (config : Mmecs)

/-- The slot as `brute_force` takes it. -/
def slotRead (bus device : ℕ) : Slot :=
  let base := slotBase config bus device
  if vendorId config.mem base = 0xffff then .absent
  else if headerType config.mem base ≠ 0 then
    if secondaryBusNum config.mem base = 0 then .absent else .bridge (secondaryBusNum config.mem base)
  else .device

def readVisits (bus device : ℕ) : List Visit := (slotRead config bus device).visits bus device (slotBase config bus device)

def slotVisits (bus device : ℕ) : List Visit := (slotAt config bus device).visits bus device (slotAddress config bus device)

def busVisits (bus : ℕ) : List Visit := (List.range 32).flatMap (slotVisits config bus)

end

variable {config : Mmecs} {s t : Scan} {v : Visit} {bus device bus' device' secondary a n k : ℕ}

lemma Slot.mem_visits {x : Slot} : v ∈ x.visits bus device a ↔
    (∃ secondary, x = .bridge secondary ∧ v = .bridge bus device secondary) ∨ x = .device ∧ v = .device a := by
  cases x <;> simp [visits]

lemma Slot.mem_buses {x : Slot} {b : ℕ} : b ∈ x.buses ↔ x = .bridge b := by
  cases x with
  | absent => simp [buses]
  | bridge secondary => simp [buses, eq_comm]
  | device => simp [buses]

lemma mem_secondaries : secondary ∈ secondaries config bus ↔ ∃ device < 32, slotAt config bus device = .bridge secondary := by
  simp only [secondaries, List.mem_flatMap, List.mem_range, Slot.mem_buses]

lemma slotBase_eq (h : device < 32) : slotBase config bus device = u32 (slotAddress config bus device) := by
  have hor : bus <<< 20 ||| device <<< 15 = 2 ^ 20 * bus + 2 ^ 15 * device := by
    rw [Nat.shiftLeft_eq, Nat.shiftLeft_eq, Nat.mul_comm, Nat.mul_comm device]
    exact (Nat.two_pow_add_eq_or_of_lt (by omega) bus).symm
  rw [slotBase, slotAddress, hor, Nat.add_assoc]

lemma slotBase_aligned (h : device < 32) : slotBase config bus device % 0x400 = 0 := by
  have haligned := config.aligned
  rw [slotBase_eq h, slotAddress, u32]
  omega

@[simp] lemma visits_call {e : Event} : (s.call e).visits = s.visits ++ e.visit.toList := by
  rw [Scan.visits, Scan.call, List.filterMap_append]
  cases h : e.visit <;> simp [h, Scan.visits]

@[simp] lemma visits_baseVirt {x : ℕ} : ({ s with baseVirt := x } : Scan).visits = s.visits := rfl

@[simp] lemma visits_handleDevice {header : Page} : (handleDevice config header s).visits = s.visits := by
  unfold handleDevice
  split <;> rfl

variable (config bus) in
lemma bruteForceSlot_cases (recurse : ℕ → Scan → Exec Scan) (s : Scan) (h : device < 32) :
    ∃ t : Scan, t.visits = s.visits ++ readVisits config bus device ∧
      ((∃ secondary, slotRead config bus device = .bridge secondary ∧
          bruteForceSlot config recurse bus s device = recurse secondary t) ∨
        (slotRead config bus device).buses = [] ∧ bruteForceSlot config recurse bus s device = .ok t) := by
  have hmap : ∀ virt, s.paeMmap (slotBase config bus device) virt = .ok (s.call (.paeMmap (slotBase config bus device) virt)) :=
    fun virt => if_neg (not_not_intro (slotBase_aligned h))
  simp only [bruteForceSlot, hmap, ok_bind, readVisits, slotRead]
  split_ifs with hvendor htype hsecondary
  · exact ⟨_, by simp [Event.visit, Slot.visits], Or.inr ⟨rfl, rfl⟩⟩
  · exact ⟨_, by simp [Event.visit, Slot.visits], Or.inr ⟨rfl, rfl⟩⟩
  · exact ⟨_, by simp [Event.visit, Slot.visits], Or.inl ⟨_, rfl, rfl⟩⟩
  · exact ⟨_, by simp [Event.visit, Slot.visits], Or.inr ⟨rfl, rfl⟩⟩

section

/-! Any run that ends: a visit is one that the code makes at some slot, and a bus it recursed into was gone through. -/

/-- The visits of the 32 slots of `bus` are among `vs`. -/
def Covered (config : Mmecs) (vs : List Visit) (bus : ℕ) : Prop := ∀ device < 32, readVisits config bus device ⊆ vs

/-- How the visits grow. -/
structure Grows (config : Mmecs) (before after : List Visit) : Prop where
  subset : before ⊆ after
  source : ∀ v ∈ after, v ∈ before ∨ ∃ bus < 256, ∃ device < 32, v ∈ readVisits config bus device
  closed : ∀ bus device secondary, .bridge bus device secondary ∈ after →
    .bridge bus device secondary ∈ before ∨ Covered config after secondary

namespace Grows

lemma refl (vs : List Visit) : Grows config vs vs := ⟨fun _ => id, fun _ => Or.inl, fun _ _ _ => Or.inl⟩

lemma trans {as bs cs : List Visit} (h : Grows config as bs) (h' : Grows config bs cs) : Grows config as cs where
  subset := fun _ hv => h'.subset (h.subset hv)
  source := fun v hv => (h'.source v hv).elim (h.source v) Or.inr
  closed := by
    intro b d secondary hv
    rcases h'.closed b d secondary hv with hv | hc
    · rcases h.closed b d secondary hv with hv | hc
      · exact Or.inl hv
      · exact Or.inr fun device hd => List.Subset.trans (hc device hd) h'.subset
    · exact Or.inr hc

lemma slot (hb : bus < 256) (hd : device < 32) (h : (slotRead config bus device).buses = []) (vs : List Visit) :
    Grows config vs (vs ++ readVisits config bus device) where
  subset := List.subset_append_left _ _
  source := by
    intro v hv
    rcases List.mem_append.mp hv with hv | hv
    · exact Or.inl hv
    · exact Or.inr ⟨bus, hb, device, hd, hv⟩
  closed := by
    intro b d secondary hv
    rcases List.mem_append.mp hv with hv | hv
    · exact Or.inl hv
    · rcases Slot.mem_visits.mp hv with ⟨x, hx, -⟩ | ⟨-, hx⟩
      · rw [hx] at h
        cases h
      · cases hx

lemma bridge {vs ws : List Visit} (hb : bus < 256) (hd : device < 32) (h : slotRead config bus device = .bridge secondary)
    (hg : Grows config (vs ++ readVisits config bus device) ws) (hc : Covered config ws secondary) : Grows config vs ws where
  subset := fun _ hv => hg.subset (List.mem_append_left _ hv)
  source := by
    intro v hv
    rcases hg.source v hv with hv | hv
    · rcases List.mem_append.mp hv with hv | hv
      · exact Or.inl hv
      · exact Or.inr ⟨bus, hb, device, hd, hv⟩
    · exact Or.inr hv
  closed := by
    intro b d sec hv
    rcases hg.closed b d sec hv with hv | hv
    · rcases List.mem_append.mp hv with hv | hv
      · exact Or.inl hv
      · rw [readVisits, h] at hv
        cases List.mem_singleton.mp hv
        exact Or.inr hc
    · exact Or.inr hv

end Grows

lemma secondary_lt (h : slotRead config bus device = .bridge secondary) : secondary < 256 := by
  simp only [slotRead] at h
  split_ifs at h
  exact Slot.bridge.inj h ▸ BitVec.isLt _

/-- What one call of `brute_force` does. -/
def Goes (config : Mmecs) (recurse : ℕ → Scan → Exec Scan) : Prop :=
  ∀ bus s t, bus < 256 → recurse bus s = .ok t → Grows config s.visits t.visits ∧ Covered config t.visits bus

lemma bruteForceSlot_grows {recurse : ℕ → Scan → Exec Scan} (hr : Goes config recurse) (hb : bus < 256) (hd : device < 32)
    (h : bruteForceSlot config recurse bus s device = .ok t) :
    Grows config s.visits t.visits ∧ readVisits config bus device ⊆ t.visits := by
  obtain ⟨u, hu, ⟨secondary, hread, heq⟩ | ⟨hread, heq⟩⟩ := bruteForceSlot_cases config bus recurse s hd
  · obtain ⟨hg, hc⟩ := hr secondary u t (secondary_lt hread) (heq.symm.trans h)
    rw [hu] at hg
    exact ⟨hg.bridge hb hd hread hc, fun v hv => hg.subset (List.mem_append_right _ hv)⟩
  · obtain rfl := Except.ok.inj (heq.symm.trans h)
    rw [hu]
    exact ⟨Grows.slot hb hd hread _, List.subset_append_right _ _⟩

lemma loop_grows {recurse : ℕ → Scan → Exec Scan} (hr : Goes config recurse) (hb : bus < 256) {ds : List ℕ} (hds : ∀ d ∈ ds, d < 32)
    (h : ds.foldlM (bruteForceSlot config recurse bus) s = .ok t) :
    Grows config s.visits t.visits ∧ ∀ d ∈ ds, readVisits config bus d ⊆ t.visits := by
  induction ds generalizing s with
  | nil =>
    obtain rfl := Except.ok.inj h
    exact ⟨Grows.refl _, fun d hd => absurd hd List.not_mem_nil⟩
  | cons d ds ih =>
    rw [List.foldlM_cons] at h
    obtain ⟨u, hu, hrest⟩ := bind_eq_ok.mp h
    obtain ⟨hg, hslot⟩ := bruteForceSlot_grows hr hb (hds d List.mem_cons_self) hu
    obtain ⟨hg', hslots⟩ := ih (fun d' hd' => hds d' (List.mem_cons_of_mem _ hd')) hrest
    refine ⟨hg.trans hg', fun d' hd' => ?_⟩
    rcases List.mem_cons.mp hd' with rfl | hd'
    · exact List.Subset.trans hslot hg'.subset
    · exact hslots d' hd'

lemma bruteForce_goes (n : ℕ) : Goes config (bruteForce config n) := by
  induction n with
  | zero =>
    intro bus s t _ h
    cases h
  | succ n ih =>
    intro bus s t hb h
    obtain ⟨hg, hslots⟩ := loop_grows ih hb (fun d hd => List.mem_range.mp hd) h
    exact ⟨hg, fun d hd => hslots d (List.mem_range.mpr hd)⟩

end

lemma onTree_lt (h : OnTree config bus) : bus < 256 := by
  apply h.induct
  · norm_num
  · intro x y _ _ hy
    obtain ⟨device, -, hslot⟩ := mem_secondaries.mp hy
    simp only [slotAt] at hslot
    split_ifs at hslot
    exact Slot.bridge.inj hslot ▸ BitVec.isLt _

/-- No two slots have their headers at one address, even in the addresses of 32 bits. -/
lemma slotAddress_inj (hb : bus < 256) (hb' : bus' < 256) (hd : device < 32) (hd' : device' < 32)
    (h : u32 (slotAddress config bus device) = slotAddress config bus' device') :
    bus = bus' ∧ device = device' ∧ slotAddress config bus' device' < 2 ^ 32 := by
  simp only [slotAddress, u32] at h ⊢
  omega

lemma slotRead_absent : slotRead config bus device = .absent ↔ vendorId config.mem (slotBase config bus device) = 0xffff ∨
    headerType config.mem (slotBase config bus device) ≠ 0 ∧ secondaryBusNum config.mem (slotBase config bus device) = 0 := by
  simp only [slotRead]
  split_ifs <;> simp_all

lemma slotRead_bridge : slotRead config bus device = .bridge secondary ↔
    (vendorId config.mem (slotBase config bus device) ≠ 0xffff ∧ headerType config.mem (slotBase config bus device) ≠ 0 ∧
      secondaryBusNum config.mem (slotBase config bus device) = secondary) ∧ secondary ≠ 0 := by
  simp only [slotRead]
  split_ifs <;> simp_all
  rintro rfl
  assumption

lemma slotRead_device : slotRead config bus device = .device ↔
    vendorId config.mem (slotBase config bus device) ≠ 0xffff ∧ headerType config.mem (slotBase config bus device) = 0 := by
  simp only [slotRead]
  split_ifs <;> simp_all

lemma vendorId_of_device (h : slotAt config bus device = .device) : vendorId config.mem (slotAddress config bus device) ≠ 0xffff := by
  intro hv
  rw [slotAt, if_pos hv] at h
  cases h

lemma slotRight_iff (hd : device < 32) (hroot : slotAt config bus device ≠ .bridge 0) : SlotRight config bus device ↔
    slotRead config bus device = slotAt config bus device ∧
      (slotAt config bus device = .device → slotAddress config bus device < 2 ^ 32) := by
  simp only [SlotRight]
  cases hslot : slotAt config bus device with
  | absent => simp [slotRead_absent]
  | bridge secondary =>
    have hne : secondary ≠ 0 := fun h => hroot (h ▸ hslot)
    simp [slotRead_bridge, hne]
  | device =>
    rw [slotRead_device]
    constructor
    · rintro ⟨hlt, htype⟩
      have hvendor := vendorId_of_device hslot
      rw [← u32_eq hlt, ← slotBase_eq hd] at hvendor
      exact ⟨⟨hvendor, htype⟩, fun _ => hlt⟩
    · rintro ⟨⟨-, htype⟩, hlt⟩
      exact ⟨hlt rfl, htype⟩

lemma Scan.Complete.covered (h : s.Complete config) (hrun : bruteForce config n 0 .start = .ok s) (hb : OnTree config bus) :
    Covered config s.visits bus := by
  obtain ⟨hg, hroot⟩ := bruteForce_goes n 0 .start s (by norm_num) hrun
  apply hb.induct hroot
  intro x y hx _ hy
  obtain ⟨device, hd, hslot⟩ := mem_secondaries.mp hy
  rcases hg.closed x device y ((h.bridge_iff x device y).mpr ⟨hx, hd, hslot⟩) with hv | hc
  · cases hv
  · exact hc

lemma Scan.Complete.slotRight (h : s.Complete config) (hrun : bruteForce config n 0 .start = .ok s) (ht : BusTree config)
    (hb : OnTree config bus) (hd : device < 32) : SlotRight config bus device := by
  rw [slotRight_iff hd (ht.root hb hd)]
  have hcover := h.covered hrun hb device hd
  have hsource : ∀ v ∈ s.visits, ∃ bus < 256, ∃ device < 32, v ∈ readVisits config bus device := by
    intro v hv
    rcases (bruteForce_goes n 0 .start s (by norm_num) hrun).1.source v hv with hv | hv
    · cases hv
    · exact hv
  cases hslot : slotAt config bus device with
  | bridge secondary =>
    -- the visit carries the slot
    obtain ⟨b, -, d, -, hv⟩ := hsource _ ((h.bridge_iff bus device secondary).mpr ⟨hb, hd, hslot⟩)
    rcases Slot.mem_visits.mp hv with ⟨x, hread, hx⟩ | ⟨-, hx⟩
    · cases hx
      exact ⟨hread, fun hc => by cases hc⟩
    · cases hx
  | device =>
    obtain ⟨b, hb', d, hd', hv⟩ := hsource _ ((h.device_iff _).mpr ⟨bus, device, hb, hd, hslot, rfl⟩)
    rcases Slot.mem_visits.mp hv with ⟨x, -, hx⟩ | ⟨hread, hx⟩
    · cases hx
    · rw [slotBase_eq hd', Visit.device.injEq] at hx
      obtain ⟨rfl, rfl, hlt⟩ := slotAddress_inj hb' (onTree_lt hb) hd' hd hx.symm
      exact ⟨hread, fun _ => hlt⟩
  | absent =>
    refine ⟨?_, fun hc => by cases hc⟩
    cases hread : slotRead config bus device with
    | absent => rfl
    | bridge secondary =>
      have hv : .bridge bus device secondary ∈ s.visits := by
        apply hcover
        rw [readVisits, hread]
        exact List.mem_cons_self
      obtain ⟨-, -, hbridge⟩ := (h.bridge_iff bus device secondary).mp hv
      cases hslot.symm.trans hbridge
    | device =>
      have hv : .device (slotBase config bus device) ∈ s.visits := by
        apply hcover
        rw [readVisits, hread]
        exact List.mem_cons_self
      obtain ⟨b, d, hb', hd', hdevice, heq⟩ := (h.device_iff _).mp hv
      rw [slotBase_eq hd] at heq
      obtain ⟨rfl, rfl, -⟩ := slotAddress_inj (onTree_lt hb) (onTree_lt hb') hd hd' heq.symm
      cases hslot.symm.trans hdevice

section

/-! The run over a tree whose slots are all taken for what they are. -/

lemma slotVisits_slot (hd : device < 32) (hd' : device' < 32) (h : v ∈ slotVisits config bus device)
    (h' : v ∈ slotVisits config bus' device') : bus = bus' ∧ device = device' := by
  rcases Slot.mem_visits.mp h with ⟨x, -, rfl⟩ | ⟨-, rfl⟩
  · rcases Slot.mem_visits.mp h' with ⟨y, -, heq⟩ | ⟨-, heq⟩
    · cases heq
      exact ⟨rfl, rfl⟩
    · cases heq
  · rcases Slot.mem_visits.mp h' with ⟨y, -, heq⟩ | ⟨-, heq⟩
    · cases heq
    · rw [Visit.device.injEq] at heq
      simp only [slotAddress] at heq
      omega

lemma slotVisits_nodup : (slotVisits config bus device).Nodup := by
  rw [slotVisits]
  cases slotAt config bus device with
  | absent => exact List.nodup_nil
  | bridge secondary => exact List.nodup_singleton _
  | device => exact List.nodup_singleton _

lemma mem_busVisits : v ∈ busVisits config bus ↔ ∃ device < 32, v ∈ slotVisits config bus device := by
  simp only [busVisits, List.mem_flatMap, List.mem_range]

lemma busVisits_nodup : (busVisits config bus).Nodup := by
  apply nodup_flatMap_of_unique List.nodup_range
  · intro d _
    exact slotVisits_nodup
  · intro d hd d' hd' w hw hw'
    exact (slotVisits_slot (List.mem_range.mp hd) (List.mem_range.mp hd') hw hw').2

lemma secondaries_nodup (ht : BusTree config) (hb : OnTree config bus) : (secondaries config bus).Nodup := by
  apply nodup_flatMap_of_unique List.nodup_range
  · intro d _
    cases slotAt config bus d with
    | absent => exact List.nodup_nil
    | bridge secondary => exact List.nodup_singleton _
    | device => exact List.nodup_nil
  · intro d hd d' hd' w hw hw'
    exact (ht.other hb hb (List.mem_range.mp hd) (List.mem_range.mp hd') (Slot.mem_buses.mp hw) (Slot.mem_buses.mp hw')).2

lemma BusTree.tree (ht : BusTree config) : Tree (secondaries config) 0 where
  root := by
    intro x hx hmem
    obtain ⟨device, hd, hslot⟩ := mem_secondaries.mp hmem
    exact ht.root hx hd hslot
  parent := by
    intro x y z hx hy hzx hzy
    obtain ⟨device, hd, hslot⟩ := mem_secondaries.mp hzx
    obtain ⟨device', hd', hslot'⟩ := mem_secondaries.mp hzy
    exact (ht.other hx hy hd hd' hslot hslot').1
  nodup := secondaries_nodup ht

lemma onTree_mem (x : ℕ) (h : OnTree config x) : x ∈ Finset.range 256 := Finset.mem_range.mpr (onTree_lt h)

lemma foldlM_visits {g : Scan → ℕ → Exec Scan} {w : ℕ → List Visit} {ds : List ℕ}
    (h : ∀ d ∈ ds, ∀ s, ∃ t : Scan, g s d = .ok t ∧ t.visits.Perm (s.visits ++ w d)) (s : Scan) :
    ∃ t : Scan, ds.foldlM g s = .ok t ∧ t.visits.Perm (s.visits ++ ds.flatMap w) := by
  induction ds generalizing s with
  | nil => exact ⟨s, rfl, by rw [List.flatMap_nil, List.append_nil]⟩
  | cons d ds ih =>
    obtain ⟨u, hu, hperm⟩ := h d List.mem_cons_self s
    obtain ⟨t, ht, hrest⟩ := ih (fun d' hd' => h d' (List.mem_cons_of_mem _ hd')) u
    refine ⟨t, by rw [List.foldlM_cons, hu]; exact ht, hrest.trans ?_⟩
    rw [List.flatMap_cons, ← List.append_assoc]
    exact hperm.append_right _

lemma bruteForce_visits (ht : BusTree config) (hright : ∀ bus, OnTree config bus → ∀ device < 32, SlotRight config bus device)
    (hb : Depth (secondaries config) 0 k bus) (hn : 256 ≤ n + k) (s : Scan) : ∃ t : Scan, bruteForce config n bus s = .ok t ∧
      t.visits.Perm (s.visits ++ (preorder (secondaries config) n bus).flatMap (busVisits config)) := by
  induction n generalizing k bus s with
  | zero =>
    have hlt := ht.tree.depth_lt_card onTree_mem hb
    rw [Finset.card_range] at hlt
    omega
  | succ n ih =>
    have hslot : ∀ d ∈ List.range 32, ∀ s, ∃ t : Scan, bruteForceSlot config (bruteForce config n) bus s d = .ok t ∧
        t.visits.Perm (s.visits ++ (slotVisits config bus d ++
          (slotAt config bus d).buses.flatMap fun z => (preorder (secondaries config) n z).flatMap (busVisits config))) := by
      intro d hd s
      have hd' := List.mem_range.mp hd
      obtain ⟨hread, hlow⟩ := (slotRight_iff hd' (ht.root ⟨k, hb⟩ hd')).mp (hright bus ⟨k, hb⟩ d hd')
      have hvisits : readVisits config bus d = slotVisits config bus d := by
        rw [readVisits, slotVisits, hread]
        cases hslot : slotAt config bus d with
        | absent => rfl
        | bridge secondary => rfl
        | device => rw [slotBase_eq hd', u32_eq (hlow hslot)]
      obtain ⟨u, hu, ⟨secondary, hbridge, heq⟩ | ⟨hbuses, heq⟩⟩ := bruteForceSlot_cases config bus (bruteForce config n) s hd'
      · have hbridge' := hread.symm.trans hbridge
        have hdeeper := hb.step (mem_secondaries.mpr ⟨d, hd', hbridge'⟩)
        obtain ⟨t, hrun, hperm⟩ := ih hdeeper (by omega) u
        refine ⟨t, heq.trans hrun, hperm.trans ?_⟩
        rw [hu, hvisits, hbridge', Slot.buses, List.flatMap_singleton, List.append_assoc]
      · refine ⟨u, heq, ?_⟩
        rw [← hread, hbuses, List.flatMap_nil, List.append_nil, hu, hvisits]
    obtain ⟨t, hrun, hperm⟩ := foldlM_visits hslot s
    refine ⟨t, hrun, hperm.trans ?_⟩
    rw [flatMap_preorder, secondaries, List.flatMap_assoc]
    exact (List.flatMap_append_perm _ _ _).symm.append_left _

lemma enumerates_of_right (ht : BusTree config) (hright : ∀ bus, OnTree config bus → ∀ device < 32, SlotRight config bus device) :
    Enumerates config := by
  obtain ⟨t, hrun, hperm⟩ := bruteForce_visits ht hright .root (n := 256) (le_refl 256) .start
  have hpre := ht.tree.preorder_nodup .root 256
  have hbus : ∀ {x}, x ∈ preorder (secondaries config) 256 0 ↔ OnTree config x :=
    ht.tree.mem_preorder_root onTree_mem (le_of_eq (Finset.card_range 256))
  have hmem : ∀ v, v ∈ t.visits ↔ ∃ bus, OnTree config bus ∧ ∃ device < 32, v ∈ slotVisits config bus device := by
    intro v
    rw [hperm.mem_iff]
    simp only [Scan.visits, Scan.start, List.filterMap_nil, List.nil_append, List.mem_flatMap, hbus, mem_busVisits]
  refine ⟨256, t, hrun, ?_, fun bus device secondary => ?_, fun a => ?_⟩
  · apply hperm.nodup_iff.mpr
    apply nodup_flatMap_of_unique hpre
    · intro x _
      exact busVisits_nodup
    · intro x _ y _ w hw hw'
      obtain ⟨d, hd, hv⟩ := mem_busVisits.mp hw
      obtain ⟨d', hd', hv'⟩ := mem_busVisits.mp hw'
      exact (slotVisits_slot hd hd' hv hv').1
  · rw [hmem]
    constructor
    · rintro ⟨b, hb, d, hd, hv⟩
      rcases Slot.mem_visits.mp hv with ⟨x, hslot, heq⟩ | ⟨-, heq⟩
      · cases heq
        exact ⟨hb, hd, hslot⟩
      · cases heq
    · rintro ⟨hb, hd, hslot⟩
      exact ⟨bus, hb, device, hd, Slot.mem_visits.mpr (Or.inl ⟨secondary, hslot, rfl⟩)⟩
  · rw [hmem]
    constructor
    · rintro ⟨b, hb, d, hd, hv⟩
      rcases Slot.mem_visits.mp hv with ⟨x, -, heq⟩ | ⟨hslot, heq⟩
      · cases heq
      · exact ⟨b, d, hb, hd, hslot, (Visit.device.inj heq).symm⟩
    · rintro ⟨b, d, hb, hd, hslot, rfl⟩
      exact ⟨b, hb, d, hd, Slot.mem_visits.mpr (Or.inr ⟨hslot, rfl⟩)⟩

end

/-- Every bus of the tree is gone through, and every device handled, just where all slots are read right. -/
theorem enumerates_iff (ht : BusTree config) :
    Enumerates config ↔ ∀ bus, OnTree config bus → ∀ device < 32, SlotRight config bus device := by
  constructor
  · rintro ⟨n, s, hrun, hs⟩ bus hb device hd
    exact hs.slotRight hrun ht hb hd
  · exact enumerates_of_right ht

/-- Below 4 GiB: a device with one function, a bridge with no bus but its secondary behind it. -/
lemma slotRight_low (hd : device < 32) (h : slotAddress config bus device < 2 ^ 32) : SlotRight config bus device ↔
    match slotAt config bus device with
    | .absent => True
    | .bridge secondary => secondaryBusNum config.mem (slotAddress config bus device) = secondary
    | .device => headerType config.mem (slotAddress config bus device) < 128 := by
  have hbase : slotBase config bus device = slotAddress config bus device := (slotBase_eq hd).trans (u32_eq h)
  simp only [SlotRight, hbase, slotAt]
  split_ifs with hvendor htype
  · simp [hvendor]
  · simp only [h, true_and]
    omega
  · have hne : headerType config.mem (slotAddress config bus device) ≠ 0 := by
      omega
    simp [hvendor, hne]

section

/-! A bridge to bus 1, and one device behind it. -/

/-- The headers of the slots that are present, in a space at 0xE0000000. -/
def spaceOf (headers : ℕ → ℕ → List (BitVec 8)) : Mmecs where
  mem a := (headers ((a - 0xE0000000) / 2 ^ 20) ((a - 0xE0000000) / 2 ^ 15 % 32)).getD ((a - 0xE0000000) % 2 ^ 15) 0xff
  baseAddr := 0xE0000000
  lt := by norm_num
  aligned := by norm_num

/-- The bridge, from bus 0 to bus 1, with bus 1 as the last one behind it. -/
def bridgeHeader : List (BitVec 8) :=
  [0x86, 0x80, 0, 0, 0, 0, 0, 0, 0, 0, 4, 6, 0, 0, 1, 0, 0, 0, 0, 0, 0, 0, 0, 0, 0, 1, 1, 0]

def ahciHeader (type : BitVec 8) : List (BitVec 8) := [0x86, 0x80, 0x22, 0x29, 0, 0, 0x10, 0, 2, 1, 6, 1, 0, 0, type, 0]

def bridged (type : BitVec 8) : Mmecs := spaceOf fun bus device =>
  if bus = 0 ∧ device = 1 then bridgeHeader else if bus = 1 ∧ device = 0 then ahciHeader type else []

variable (h0 : ∀ device < 32, slotAt config 0 device = if device = 1 then .bridge 1 else .absent)
  (h1 : ∀ device < 32, slotAt config 1 device = if device = 0 then .device else .absent)
include h0 h1

lemma onTree_bridged (hb : OnTree config bus) : bus = 0 ∨ bus = 1 := by
  apply hb.induct (Or.inl rfl)
  rintro x y - (rfl | rfl) hy
  · obtain ⟨device, hd, hslot⟩ := mem_secondaries.mp hy
    rw [h0 device hd] at hslot
    split_ifs at hslot
    exact Or.inr (Slot.bridge.inj hslot).symm
  · obtain ⟨device, hd, hslot⟩ := mem_secondaries.mp hy
    rw [h1 device hd] at hslot
    split_ifs at hslot

lemma bridge_bridged (hb : OnTree config bus) (hd : device < 32) (h : slotAt config bus device = .bridge secondary) :
    bus = 0 ∧ device = 1 ∧ secondary = 1 := by
  rcases onTree_bridged h0 h1 hb with rfl | rfl
  · rw [h0 device hd] at h
    split_ifs at h with hone
    exact ⟨rfl, hone, (Slot.bridge.inj h).symm⟩
  · rw [h1 device hd] at h
    split_ifs at h

lemma busTree_bridged : BusTree config where
  root := by
    intro bus device hb hd h
    have hone := bridge_bridged h0 h1 hb hd h
    omega
  other := by
    intro bus device bus' device' secondary hb hb' hd hd' h h'
    obtain ⟨rfl, rfl, -⟩ := bridge_bridged h0 h1 hb hd h
    obtain ⟨rfl, rfl, -⟩ := bridge_bridged h0 h1 hb' hd' h'
    exact ⟨rfl, rfl⟩

omit h0 h1

theorem enumerates_bridged : Enumerates (bridged 0) :=
  (enumerates_iff (busTree_bridged (by decide) (by decide))).mpr fun bus hb => by
    rcases onTree_bridged (by decide) (by decide) hb with rfl | rfl
    · decide
    · decide

/-- A device with more functions than one is not handled. -/
theorem not_enumerates : ∃ config, BusTree config ∧ ¬ Enumerates config := by
  have h0 : ∀ device < 32, slotAt (bridged 0x80) 0 device = if device = 1 then .bridge 1 else .absent := by decide
  have h1 : ∀ device < 32, slotAt (bridged 0x80) 1 device = if device = 0 then .device else .absent := by decide
  have ht := busTree_bridged h0 h1
  refine ⟨bridged 0x80, ht, fun ⟨n, s, hrun, hs⟩ => ?_⟩
  have hone : OnTree (bridged 0x80) 1 := Reached.root.step (mem_secondaries.mpr ⟨1, by norm_num, h0 1 (by norm_num)⟩)
  have hwrong : ¬ SlotRight (bridged 0x80) 1 0 := by decide
  exact hwrong (hs.slotRight hrun ht hone (by norm_num))

end

end WordOS.Kernel.Pci
