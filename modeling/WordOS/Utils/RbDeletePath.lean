import WordOS.Utils.RbDeleteFix

/-! What `delete_violations` keeps: the way up to the root, the order of the entries, the root's colour. -/

namespace WordOS.Utils

open Machine BinaryTree Lib.Zipper Lib.ColoredTree

lemma climb_le (c : RbPath) : climb c ≤ 2 * (pathPtrs c).length := by
  induction c with
  | nil => simp [climb]
  | cons f c ih =>
    simp only [climb, List.map_cons, List.sum_cons, pathPtrs, List.length_cons, List.length_append, ptrs,
      List.length_map] at ih ⊢
    omega

lemma climb_lone_le (d : Side) (a : Cell Entry) (c : RbPath) : climb (⟨d, a, nil⟩ :: c) ≤ 2 * (pathPtrs c).length + 1 := by
  have hle := climb_le c
  simp only [climb, List.map_cons, List.sum_cons, vals_nil, List.length_nil] at hle ⊢
  omega

def ancestors (c : RbPath) : List (Side × Entry) := c.map fun f => (f.side, f.value.val)

@[simp] lemma ancestors_cons (f : Frame (Cell Entry)) (c : RbPath) :
    ancestors (f :: c) = (f.side, f.value.val) :: ancestors c := rfl

@[simp] lemma ancestors_paintFar (c : RbPath) : ancestors (paintFar c) = ancestors c := by
  rcases c with _ | ⟨f, _ | ⟨g, c⟩⟩ <;> rfl

/-- The entries in order around the hole of a path. -/
def around (c : RbPath) : List Entry × List Entry := ((before c).map Cell.val, (after c).map Cell.val)

lemma around_cons (f : Frame (Cell Entry)) (c : RbPath) :
    around (f :: c) = match f.side with
      | .left => ((around c).1, f.value.val :: vals f.sibling ++ (around c).2)
      | .right => ((around c).1 ++ (vals f.sibling ++ [f.value.val]), (around c).2) := by
  rcases f with ⟨_ | _, b, t⟩ <;> simp [around, before, after, Frame.before, Frame.after, vals]

lemma around_congr {f g : Frame (Cell Entry)} {c c' : RbPath} (hs : g.side = f.side)
    (hv : g.value.val = f.value.val) (ht : vals g.sibling = vals f.sibling) (hc : around c' = around c) :
    around (g :: c') = around (f :: c) := by
  rw [around_cons, around_cons, hs, hv, ht, hc]

lemma around_paintFar (c : RbPath) : around (paintFar c) = around c := by
  rcases c with _ | ⟨f, _ | ⟨g, c⟩⟩
  · rfl
  · rfl
  · exact around_congr rfl rfl rfl (around_congr rfl rfl (vals_paint ..) rfl)

lemma around_lift (d : Side) (b : Cell Entry) (c : RbPath) {t u : RbTree} (ht : t ≠ nil)
    (hv : vals t = vals u) : around (lift d b c t) = around (⟨d, b, u⟩ :: c) := by
  obtain ⟨m, x, y, rfl⟩ := exists_fork ht d
  rw [lift_fork, around_cons, around_cons, around_cons, ← hv]
  cases d <;> simp [fork]

lemma vals_alignSibling (d : Side) (t : RbTree) : vals (alignSibling d t) = vals t := by
  cases t with
  | nil => rfl
  | node m l r =>
    rw [alignSibling]
    split
    · rw [vals_rot, ← fork_pick d m l r]
      exact vals_fork_congr rfl (vals_paint ..) rfl
    · rfl

lemma alignSibling_ne_nil {d : Side} {t : RbTree} (h : t ≠ nil) : alignSibling d t ≠ nil := by
  rwa [← vals_ne_nil, vals_alignSibling, vals_ne_nil]

/-- What `delete_violations` keeps of a path: the ancestors stay ancestors in their order,
the nearest one stays the parent, and no entry crosses the hole. -/
structure Keeps (c c' : RbPath) : Prop where
  sublist : (ancestors c).Sublist (ancestors c')
  head : (ancestors c').head? = (ancestors c).head?
  around : around c' = around c

lemma Keeps.refl (c : RbPath) : Keeps c c := ⟨.refl _, rfl, rfl⟩

lemma Keeps.cons {f g : Frame (Cell Entry)} {c c' : RbPath} (h : Keeps c c') (hs : g.side = f.side)
    (hv : g.value.val = f.value.val) (ht : vals g.sibling = vals f.sibling) : Keeps (f :: c) (g :: c') := by
  refine ⟨?_, ?_, around_congr hs hv ht h.around⟩
  · rw [ancestors_cons, ancestors_cons, hs, hv]
    exact h.sublist.cons_cons _
  · rw [ancestors_cons, ancestors_cons, hs, hv, List.head?_cons, List.head?_cons]

lemma Keeps.lift {d : Side} {b : Cell Entry} {c : RbPath} {t u : RbTree} (ht : t ≠ nil)
    (hv : vals t = vals u) : Keeps (⟨d, b, u⟩ :: c) (lift d b c t) := by
  refine ⟨?_, ?_, around_lift d b c ht hv⟩
  all_goals
    obtain ⟨m, x, y, rfl⟩ := exists_fork ht d
    rw [lift_fork]
  · exact ((List.Sublist.refl _).cons _).cons_cons _
  · rfl

lemma Keeps.trans {c c' c'' : RbPath} (h : Keeps c c') (h' : Keeps c' c'') : Keeps c c'' :=
  ⟨h.sublist.trans h'.sublist, h'.head.trans h.head, h'.around.trans h.around⟩

lemma Keeps.vals_plug {c c' : RbPath} {t t' : RbTree} (h : Keeps c c') (ht : vals t' = vals t) :
    vals (plug c' t') = vals (plug c t) := by
  have ha := h.around
  simp only [Utils.around, Prod.mk.injEq] at ha
  rw [Lib.ColoredTree.vals_plug, Lib.ColoredTree.vals_plug, ha.1, ha.2, ht]

/-- The ways in which `delete_violations` returns. -/
inductive Rebalances : RbPath → Color → Color × RbPath → Prop
  | root {k} : Rebalances [] k (.black, [])
  | red {f c} : Rebalances (f :: c) .red (.red, f :: c)
  | climb {d b m near far c k q} : k ≠ .red → m.color = .black → color near = .black →
      color far = .black → b.color = .black → Rebalances c .doubleBlack q →
      Rebalances (⟨d, b, fork d m near far⟩ :: c) k
        (.black, ⟨d, b.paint q.1, fork d (m.paint .red) near far⟩ :: q.2)
  | absorb {d b m near far c k} : k ≠ .red → m.color = .black → color near = .black →
      color far = .black → b.color ≠ .black →
      Rebalances (⟨d, b, fork d m near far⟩ :: c) k
        (.black, ⟨d, b.paint .black, fork d (m.paint .red) near far⟩ :: c)
  | lift {d b m near far c k q} : k ≠ .red → m.color = .red →
      Rebalances (lift d b c (fork d m near far)) .doubleBlack q →
      Rebalances (⟨d, b, fork d m near far⟩ :: c) k q
  | borrow {d b m near far c k} : k ≠ .red → m.color = .black → color near = .red →
      Rebalances (⟨d, b, fork d m near far⟩ :: c) k
        (.black, paintFar (Utils.lift d b c (alignSibling d (fork d m near far))))
  | stuck {d b m near far c k} : k ≠ .red → m.color ≠ .red →
      (m.color = .black → color near ≠ .red ∧ ¬ (color near = .black ∧ color far = .black)) →
      Rebalances (⟨d, b, fork d m near far⟩ :: c) k (.doubleBlack, ⟨d, b, fork d m near far⟩ :: c)

lemma deleteFix_rebalances {c : RbPath} {k : Color} {q : Color × RbPath} (h : deleteFix c k = some q) :
    Rebalances c k q := by
  induction hn : climb c using Nat.strong_induction_on generalizing c k q with
  | _ n ih =>
    subst hn
    rcases c with _ | ⟨⟨d, b, t⟩, c⟩
    · rw [deleteFix] at h
      obtain rfl := Option.some.inj h
      exact .root
    by_cases hk : k = .red
    · subst hk
      rw [deleteFix_red] at h
      obtain rfl := Option.some.inj h
      exact .red
    by_cases ht : t = nil
    · subst ht
      simp [deleteFix, hk] at h
    obtain ⟨m, near, far, rfl⟩ := exists_fork ht d
    rw [deleteFix_fork d b m near far c hk] at h
    split_ifs at h with h3 hb hm h4
    · obtain ⟨q, hq, rfl⟩ := Option.map_eq_some_iff.mp h
      exact .climb hk h3.1 h3.2.1 h3.2.2 hb (ih _ (by simp [climb]) hq rfl)
    · obtain rfl := Option.some.inj h
      exact .absorb hk h3.1 h3.2.1 h3.2.2 hb
    · exact .lift hk hm (ih _ (climb_lift d b c fork_ne_nil) h rfl)
    · obtain rfl := Option.some.inj h
      exact .borrow hk h4.1 h4.2
    · obtain rfl := Option.some.inj h
      exact .stuck hk hm fun hb => ⟨fun hn => h4 ⟨hb, hn⟩, fun hn => h3 ⟨hb, hn⟩⟩

lemma Rebalances.keeps {c : RbPath} {k : Color} {q : Color × RbPath} (h : Rebalances c k q) :
    Keeps c q.2 := by
  induction h with
  | root => exact .refl _
  | red => exact .refl _
  | climb _ _ _ _ _ _ ih => exact ih.cons rfl rfl (vals_fork_congr rfl rfl rfl)
  | absorb => exact (Keeps.refl _).cons rfl rfl (vals_fork_congr rfl rfl rfl)
  | lift _ _ _ ih => exact (Keeps.lift fork_ne_nil rfl).trans ih
  | @borrow d b m near far c k =>
    have h := Keeps.lift (d := d) (b := b) (c := c) (alignSibling_ne_nil fork_ne_nil) (vals_alignSibling d (fork d m near far))
    refine ⟨?_, ?_, ?_⟩
    · simpa using h.sublist
    · simpa using h.head
    · rw [around_paintFar, h.around]
  | stuck => exact .refl _

def rootColor : RbPath → Color
  | [] => .black
  | [f] => f.value.color
  | _ :: g :: c => rootColor (g :: c)

lemma rootColor_cons {f : Frame (Cell Entry)} {c : RbPath} (h : c ≠ []) :
    rootColor (f :: c) = rootColor c := by
  cases c with
  | nil => exact (h rfl).elim
  | cons g c => rfl

lemma rootColor_lift {d : Side} {b : Cell Entry} {c : RbPath} {t u : RbTree} (ht : t ≠ nil) :
    rootColor (lift d b c t) = rootColor (⟨d, b, u⟩ :: c) := by
  obtain ⟨m, x, y, rfl⟩ := exists_fork ht d
  rw [lift_fork]
  cases c <;> rfl

@[simp] lemma rootColor_paintFar (c : RbPath) : rootColor (paintFar c) = rootColor c := by
  rcases c with _ | ⟨f, _ | ⟨g, _ | ⟨e, c⟩⟩⟩ <;> rfl

lemma Keeps.eq_nil {c c' : RbPath} (h : Keeps c c') (hc : c' = []) : c = [] := by
  have := h.sublist
  rw [hc] at this
  simpa [ancestors] using this

lemma Rebalances.rootColor {c : RbPath} {k : Color} {q : Color × RbPath} (h : Rebalances c k q)
    (hc : rootColor c = .black) : rootColor q.2 = .black := by
  induction h with
  | root => rfl
  | red => exact hc
  | @climb d b m near far c k q _ _ _ _ hb hq ih =>
    by_cases hn : q.2 = []
    · obtain rfl := hq.keeps.eq_nil hn
      cases hq
      rfl
    · rw [rootColor_cons hn]
      refine ih ?_
      by_cases hc' : c = []
      · subst hc'
        rfl
      · rwa [rootColor_cons hc'] at hc
  | @absorb d b m near far c k _ _ _ _ hb =>
    cases c with
    | nil => rfl
    | cons g c => exact hc
  | lift _ _ _ ih => exact ih (by rwa [rootColor_lift fork_ne_nil])
  | @borrow d b m near far c k =>
    rwa [rootColor_paintFar, rootColor_lift (alignSibling_ne_nil fork_ne_nil)]
  | stuck => exact hc

/-- Whether repairing the path above a black node ends with a rotation at the root: past black siblings
without red children, below black parents, the way up comes to a sibling just below the root that is red
or has a red near child. -/
def LiftsRoot : RbPath → Prop
  | [] => False
  | f :: c =>
    match f.sibling with
    | nil => False
    | node s l r =>
      if s.color = .black ∧ color (f.side.pick l r) = .black ∧ color (f.side.pick r l) = .black then
        f.value.color = .black ∧ LiftsRoot c
      else (s.color = .red ∨ s.color = .black ∧ color (f.side.pick l r) = .red) ∧ c = []

instance LiftsRoot.decidable : (c : RbPath) → Decidable (LiftsRoot c)
  | [] => .isFalse id
  | ⟨_, _, nil⟩ :: _ => .isFalse id
  | ⟨d, b, node s l r⟩ :: c =>
    have := LiftsRoot.decidable c
    inferInstanceAs (Decidable (if s.color = .black ∧ color (d.pick l r) = .black ∧ color (d.pick r l) = .black then
      b.color = .black ∧ LiftsRoot c else (s.color = .red ∨ s.color = .black ∧ color (d.pick l r) = .red) ∧ c = []))

lemma liftsRoot_fork (d : Side) (b m : Cell Entry) (near far : RbTree) (c : RbPath) :
    LiftsRoot (⟨d, b, fork d m near far⟩ :: c) ↔
      if m.color = .black ∧ color near = .black ∧ color far = .black then b.color = .black ∧ LiftsRoot c
      else (m.color = .red ∨ m.color = .black ∧ color near = .red) ∧ c = [] := by
  rw [LiftsRoot]
  cases d <;> rfl

lemma not_liftsRoot_lift {d : Side} {b m : Cell Entry} {near far : RbTree} {c : RbPath} (hm : m.color = .red) :
    ¬ LiftsRoot (lift d b c (fork d m near far)) := by
  rw [lift_fork, hm]
  by_cases hn : near = nil
  · subst hn
    exact id
  · obtain ⟨n, x, y, rfl⟩ := exists_fork hn d
    rw [liftsRoot_fork]
    split_ifs
    · exact fun h => absurd h.1 (by simp)
    · exact fun h => absurd h.2 (by simp)

lemma addr_plug_of_addr (c : RbPath) {t u : RbTree} (h : addr t = addr u) : addr (plug c t) = addr (plug c u) := by
  by_cases hc : c = []
  · subst hc
    exact h
  · exact addr_plug_congr hc t u

lemma Rebalances.addr_plug {c : RbPath} {k : Color} {q : Color × RbPath} (h : Rebalances c k q)
    (hl : k ≠ .red → ¬ LiftsRoot c) {t u : RbTree} (ht : addr t = addr u) : addr (plug q.2 t) = addr (plug c u) := by
  induction h generalizing t u with
  | root => exact ht
  | red => exact addr_plug_of_addr _ ht
  | @climb d b m near far c k q hk hm hn hf hb _ ih =>
    have hl := hl hk
    rw [liftsRoot_fork, if_pos ⟨hm, hn, hf⟩] at hl
    exact ih (fun _ hc => hl ⟨hb, hc⟩) (by simp [Frame.plug])
  | @absorb d b m near far c => exact addr_plug_of_addr c (by simp [Frame.plug])
  | @lift d b m near far c k q hk hm _ ih =>
    have hl := hl hk
    rw [liftsRoot_fork, if_neg (by simp [hm])] at hl
    rw [ih (fun _ => not_liftsRoot_lift hm) ht, lift_fork]
    exact addr_plug_congr (fun hc => hl ⟨.inl hm, hc⟩) _ _
  | @borrow d b m near far c k hk hm hn =>
    have hl := hl hk
    rw [liftsRoot_fork, if_neg (by simp [hn])] at hl
    have hc : c ≠ [] := fun hc => hl ⟨.inr ⟨hm, hn⟩, hc⟩
    obtain ⟨n, x, y, hal⟩ := exists_fork (alignSibling_ne_nil (d := d) (t := fork d m near far) fork_ne_nil) d
    rw [hal, lift_fork]
    exact addr_plug_congr hc _ _
  | stuck => exact addr_plug_of_addr _ ht

end WordOS.Utils
