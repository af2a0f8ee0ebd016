import McMini.Model.MutableStates
import Mathlib.Order.Interval.Finset.Nat

/-!
# Difference states as overlays

A difference state over a base stands for the detached state which a copy of the base becomes
by the same updates. `MutableDiffState.WellFormed` is what holds of every difference state over
the base, and `Overlays` relates it to the detached state. Under `Overlays` the two answer every
query alike, but for the states of the base's runners (`Overlays.queries_eq_iff`), and
`Overlays.perform` says which updates keep it: no object may be added once one of the base has an
entry, and no copy may be made once there are new runners.
-/

namespace McMini

open Foundation

/-! ### What an update is for -/

namespace StateUpdate

/-- The update adds an object. -/
def adds : StateUpdate → Bool
  | .addObject _ | .addRunner _ => true
  | _ => false

/-- The update adds a runner. -/
def addsRunner : StateUpdate → Bool
  | .addRunner _ => true
  | _ => false

end StateUpdate

namespace StateQueries

variable (base : StateQueries)

/-- The state which the object `id` of the base gets, if it is one. -/
def givenState (id : ObjId) (o : VisibleObjectState) : Option (ObjId × VisibleObjectState) :=
  if id ≠ objidInvalid ∧ base.containsObjectWithId id = true then some (id, o) else none

/-- The object of the base to which the update gives a state, with this state. -/
def given : StateUpdate → Option (ObjId × VisibleObjectState)
  | .addStateForObj id o => base.givenState id o
  | .addStateForRunner p t =>
    (base.getObjidForRunner p).bind fun id => base.givenState id (.thread t)
  | _ => none

end StateQueries

/-! ### Difference states on their own -/

variable {c c' : DetachedState} {d : MutableDiffState} {u : StateUpdate}
  {us : List StateUpdate} {p : RunnerId} {i : ObjId} {o : VisibleObjectState}

namespace MutableDiffState

/-- What every difference state over a base satisfies which has been updated on ids it
contained. `c` is a copy of the base. -/
structure WellFormed (c : DetachedState) (d : MutableDiffState) : Prop where
  base : d.baseState = c.queries
  entry_lt : ∀ i, i ∈ d.newObjectStates →
    i < c.visibleObjects.length + d.newObjectStates.keys.card
  newRunner_iff : ∀ p, (d.newRunners.lookup p).isSome ↔
    c.runnerToObjMap.size ≤ p ∧ p < c.runnerToObjMap.size + d.newRunners.size
  newRunner_entry : ∀ p i, d.newRunners.lookup p = some i →
    c.visibleObjects.length ≤ i ∧ i ∈ d.newObjectStates

theorem WellFormed.ofState : WellFormed c (ofState c.queries) := by
  refine ⟨rfl, fun i hi => ?_, fun p => ?_, fun p i hp => ?_⟩
  · exact absurd hi Finmap.notMem_empty
  · show ((InjectiveFunction.empty (α := RunnerId) (β := ObjId)).lookup p).isSome ↔
      c.runnerToObjMap.size ≤ p ∧ p < c.runnerToObjMap.size + InjectiveFunction.size .empty
    rw [InjectiveFunction.lookup_empty, InjectiveFunction.size_empty]
    simp
  · rw [show (MutableDiffState.ofState c.queries).newRunners = .empty from rfl,
      InjectiveFunction.lookup_empty] at hp
    cases hp

namespace WellFormed

/-- The id which the next object gets. -/
theorem nextId_eq (h : WellFormed c d) :
    (d.addObject o).2 = c.visibleObjects.length + d.newObjectStates.keys.card := by
  show d.baseState.count + _ = _
  rw [h.base]
  rfl

theorem runnerCount_eq (h : WellFormed c d) :
    d.runnerCount = c.runnerToObjMap.size + d.newRunners.size := by
  rw [runnerCount, h.base]
  rfl

/-- It is the id of no object so far. -/
theorem nextId_notMem (h : WellFormed c d) :
    c.visibleObjects.length + d.newObjectStates.keys.card ∉ d.newObjectStates :=
  fun hmem => lt_irrefl _ (h.entry_lt _ hmem)

/-- The number of the next runner is free. -/
theorem lookup_next (h : WellFormed c d) :
    d.newRunners.lookup (c.runnerToObjMap.size + d.newRunners.size) = none := by
  rw [← Option.not_isSome_iff_eq_none, h.newRunner_iff]
  exact fun hp => lt_irrefl _ hp.2

/-- A new entry of the next id. -/
theorem insertNext (h : WellFormed c d) (o : VisibleObjectState) :
    WellFormed c { d with newObjectStates :=
      d.newObjectStates.insert (c.visibleObjects.length + d.newObjectStates.keys.card) o } := by
  have hcard : (insert (c.visibleObjects.length + d.newObjectStates.keys.card)
      d.newObjectStates.keys).card = d.newObjectStates.keys.card + 1 :=
    Finset.card_insert_of_notMem fun hmem => h.nextId_notMem (Finmap.mem_keys.mp hmem)
  refine ⟨h.base, fun i hi => ?_, h.newRunner_iff, fun p i hp => ?_⟩
  · rw [keys_insert, hcard]
    rcases Finmap.mem_insert.mp hi with rfl | hi
    · exact Nat.lt_succ_self _
    · exact (h.entry_lt i hi).trans (Nat.lt_succ_self _)
  · exact ⟨(h.newRunner_entry p i hp).1, Finmap.mem_insert.mpr (.inr (h.newRunner_entry p i hp).2)⟩

/-- An entry for an object which the state contains. -/
theorem insertContained (h : WellFormed c d) (hi : d.containsObjectWithId i = true)
    (o : VisibleObjectState) :
    WellFormed c { d with newObjectStates := d.newObjectStates.insert i o } := by
  have hle : d.newObjectStates.keys.card ≤ (d.newObjectStates.insert i o).keys.card := by
    rw [keys_insert]
    exact Finset.card_le_card (Finset.subset_insert _ _)
  refine ⟨h.base, fun j hj => ?_, h.newRunner_iff, fun p j hp => ?_⟩
  · show j < c.visibleObjects.length + (d.newObjectStates.insert i o).keys.card
    refine lt_of_lt_of_le ?_ (Nat.add_le_add_left hle _)
    rcases Finmap.mem_insert.mp hj with rfl | hj
    · rw [containsObjectWithId, Bool.or_eq_true, h.base] at hi
      rcases hi with hi | hi
      · exact h.entry_lt j (Finmap.mem_iff.mpr (Option.isSome_iff_exists.mp hi))
      · exact Nat.lt_add_right _ (of_decide_eq_true hi)
    · exact h.entry_lt j hj
  · exact ⟨(h.newRunner_entry p j hp).1, Finmap.mem_insert.mpr (.inr (h.newRunner_entry p j hp).2)⟩

/-- What adding a runner comes to. -/
theorem addRunner_eq (h : WellFormed c d) (t : Thread) :
    ∃ m, d.newRunners.insert (c.runnerToObjMap.size + d.newRunners.size)
        (c.visibleObjects.length + d.newObjectStates.keys.card) = some m ∧
      d.addRunner t = (⟨d.baseState, m, d.newObjectStates.insert
          (c.visibleObjects.length + d.newObjectStates.keys.card) (.thread t)⟩,
        .ok (c.runnerToObjMap.size + d.newRunners.size)) := by
  have hobj : ∀ p, d.newRunners.lookup p ≠
      some (c.visibleObjects.length + d.newObjectStates.keys.card) :=
    fun p hp => h.nextId_notMem (h.newRunner_entry p _ hp).2
  obtain ⟨m, hm, -⟩ := InjectiveFunction.exists_insert h.lookup_next hobj
  refine ⟨m, hm, ?_⟩
  have hcount : (⟨d.baseState, d.newRunners, d.newObjectStates.insert
      (c.visibleObjects.length + d.newObjectStates.keys.card) (.thread t)⟩ :
        MutableDiffState).runnerCount = c.runnerToObjMap.size + d.newRunners.size :=
    h.runnerCount_eq
  have hid : d.baseState.count = c.visibleObjects.length := by
    rw [h.base]
    rfl
  simp only [addRunner, addObject, hid, hcount, hm]

/-- An update of a runner which the state contains is one of an object it contains. -/
theorem addStateForRunner_eq (h : WellFormed c d) {t : Thread}
    (hu : (StateUpdate.addStateForRunner p t).Contained d.queries) :
    ∃ i, d.getObjidForRunner p = some i ∧ d.containsObjectWithId i = true ∧
      c.queries.given (.addStateForRunner p t) = c.queries.given (.addStateForObj i (.thread t)) ∧
      d.perform (.addStateForRunner p t) = d.perform (.addStateForObj i (.thread t)) := by
  have hp : (d.newRunners.lookup p).isSome || d.baseState.containsRunnerWithId p := hu
  have key : ∃ i, d.getObjidForRunner p = some i ∧ d.containsObjectWithId i = true ∧
      c.queries.given (.addStateForRunner p t) =
        c.queries.given (.addStateForObj i (.thread t)) := by
    cases hnew : d.newRunners.lookup p with
    | some i =>
      have hentry := h.newRunner_entry p i hnew
      have hsize : c.runnerToObjMap.size ≤ p := ((h.newRunner_iff p).mp (by rw [hnew]; rfl)).1
      have hbase : c.runnerToObjMap.lookup p = none := by
        rw [InjectiveFunction.lookup, Finmap.lookup_eq_none, ← Finmap.mem_keys, c.keys_eq_range,
          Finset.mem_range]
        exact not_lt.mpr hsize
      refine ⟨i, by rw [getObjidForRunner, hnew], ?_, ?_⟩
      · rw [containsObjectWithId, Option.isSome_iff_exists.mpr (Finmap.mem_iff.mp hentry.2)]
        rfl
      · have hi : ¬ (i ≠ objidInvalid ∧ c.queries.containsObjectWithId i = true) :=
          fun hc => absurd (of_decide_eq_true hc.2) (not_lt.mpr hentry.1)
        show (c.runnerToObjMap.lookup p).bind _ = c.queries.givenState i _
        rw [hbase, StateQueries.givenState, if_neg hi]
        rfl
    | none =>
      rw [hnew, Option.isSome_none, Bool.false_or, h.base] at hp
      obtain ⟨i, hi⟩ := Option.isSome_iff_exists.mp hp
      refine ⟨i, ?_, ?_, ?_⟩
      · rw [getObjidForRunner, hnew, h.base]
        exact hi
      · rw [containsObjectWithId, h.base, Bool.or_eq_true]
        exact .inr (decide_eq_true (c.lookup_lt hi))
      · show (c.runnerToObjMap.lookup p).bind _ = _
        rw [hi]
        rfl
  obtain ⟨i, hi, hcontains, hgiven⟩ := key
  refine ⟨i, hi, hcontains, hgiven, ?_⟩
  rw [perform_addStateForRunner, hi]
  rfl

end WellFormed

/-- Giving an object a state. -/
theorem perform_addStateForObj (d : MutableDiffState) (i : ObjId) (o : VisibleObjectState) :
    d.perform (.addStateForObj i o) =
      if i = objidInvalid then
        (d, .error (.runtimeError "Attempted to insert a state for an invalid object id"))
      else ({ d with newObjectStates := d.newObjectStates.insert i o }, .ok .done) := by
  show (((d.addStateForObj i o).1, (d.addStateForObj i o).2.map fun _ => StateUpdate.Answer.done) :
    MutableDiffState × Except Failure StateUpdate.Answer) = _
  rw [addStateForObj]
  split_ifs <;> rfl

namespace WellFormed

theorem giveState (h : WellFormed c d) (hi : d.containsObjectWithId i = true) :
    WellFormed c (d.perform (.addStateForObj i o)).1 := by
  rw [MutableDiffState.perform_addStateForObj]
  split_ifs
  · exact h
  · exact h.insertContained hi o

/-- The updates keep a difference state well formed. -/
theorem perform (h : WellFormed c d) (hu : u.Contained d.queries) :
    WellFormed c (d.perform u).1 := by
  cases u with
  | addObject o =>
    have hd : (d.perform (.addObject o)).1 =
        { d with newObjectStates := d.newObjectStates.insert (d.addObject o).2 o } := rfl
    rw [hd, h.nextId_eq]
    exact h.insertNext o
  | addRunner t =>
    obtain ⟨m, hm, heq⟩ := h.addRunner_eq t
    have hd : (d.perform (.addRunner t)).1 = (d.addRunner t).1 := rfl
    have hnext := h.insertNext (.thread t)
    rw [hd, heq]
    refine ⟨h.base, hnext.entry_lt, fun p => ?_, fun p i hp => ?_⟩
    · show (m.lookup p).isSome ↔ _ ∧ p < _ + m.size
      rw [InjectiveFunction.lookup_of_insert h.lookup_next hm,
        InjectiveFunction.size_of_insert h.lookup_next hm]
      split_ifs with hp
      · simp [← hp]
      · have hlt : p < c.runnerToObjMap.size + (d.newRunners.size + 1) ↔
            p < c.runnerToObjMap.size + d.newRunners.size :=
          Nat.lt_succ_iff.trans (Ne.symm hp).le_iff_lt
        rw [h.newRunner_iff p, hlt]
    · rw [InjectiveFunction.lookup_of_insert h.lookup_next hm] at hp
      split_ifs at hp
      · rw [← Option.some.inj hp]
        exact ⟨Nat.le_add_right _ _, Finmap.mem_insert.mpr (.inl rfl)⟩
      · exact hnext.newRunner_entry p i hp
  | addStateForObj i o => exact h.giveState hu
  | addStateForRunner p t =>
    obtain ⟨i, -, hi, -, heq⟩ := h.addStateForRunner_eq hu
    rw [heq]
    exact h.giveState hi
  | copy =>
    refine ⟨h.base, h.entry_lt, fun p => ?_, fun p i hp => ?_⟩
    · show ((InjectiveFunction.empty (α := RunnerId) (β := ObjId)).lookup p).isSome ↔
        _ ∧ p < _ + InjectiveFunction.size .empty
      rw [InjectiveFunction.lookup_empty, InjectiveFunction.size_empty]
      simp
    · rw [show (d.perform .copy).1.newRunners = .empty from rfl,
        InjectiveFunction.lookup_empty] at hp
      cases hp

end WellFormed

/-! ### The runners of the two states -/

/-- Unless the state is copied, what happens to its own runners is what happens in any state. -/
theorem WellFormed.size_perform (h : WellFormed c d) (hu : u ≠ .copy) :
    (d.perform u).1.newRunners.size = d.newRunners.size + u.addsRunner.toNat := by
  have hobj : ∀ i o, (d.perform (.addStateForObj i o)).1.newRunners.size = d.newRunners.size := by
    intro i o
    rw [perform_addStateForObj]
    split_ifs <;> rfl
  cases u with
  | addObject o => rfl
  | addRunner t =>
    obtain ⟨m, hm, heq⟩ := h.addRunner_eq t
    show (d.addRunner t).1.newRunners.size = _
    rw [heq]
    exact InjectiveFunction.size_of_insert h.lookup_next hm
  | addStateForObj i o => exact hobj i o
  | addStateForRunner p t => exact hobj _ _
  | copy => exact absurd rfl hu

theorem WellFormed.lookup_perform (h : WellFormed c d) (hu : u ≠ .copy)
    (hp : d.newRunners.lookup p = some i) : (d.perform u).1.newRunners.lookup p = some i := by
  have hobj : ∀ j o, (d.perform (.addStateForObj j o)).1.newRunners = d.newRunners := by
    intro j o
    rw [perform_addStateForObj]
    split_ifs <;> rfl
  cases u with
  | addObject o => exact hp
  | addRunner t =>
    obtain ⟨m, hm, heq⟩ := h.addRunner_eq t
    have hne : c.runnerToObjMap.size + d.newRunners.size ≠ p := by
      rintro rfl
      rw [h.lookup_next] at hp
      cases hp
    show (d.addRunner t).1.newRunners.lookup p = _
    rw [heq, InjectiveFunction.lookup_of_insert h.lookup_next hm, if_neg hne, hp]
  | addStateForObj j o => rw [hobj, hp]
  | addStateForRunner q t => rw [perform_addStateForRunner, hobj, hp]
  | copy => exact absurd rfl hu

end MutableDiffState

namespace DetachedState

/-- Giving an object a state. -/
theorem perform_addStateForObj (c : DetachedState) (i : ObjId) (o : VisibleObjectState) :
    c.perform (.addStateForObj i o) =
      if i = objidInvalid then
        (c, .error (.runtimeError "Attempted to insert a state for an invalid object id"))
      else if i < c.visibleObjects.length then
        ({ c with
            visibleObjects := c.visibleObjects.set i o, lookup_lt := c.lookup_lt_set i o },
          .ok .done)
      else (c, .error .outOfRange) := by
  show (((c.addStateForObj i o).1, (c.addStateForObj i o).2.map fun _ => StateUpdate.Answer.done) :
    DetachedState × Except Failure StateUpdate.Answer) = _
  rw [addStateForObj]
  split_ifs <;> rfl

theorem runnerToObjMap_perform_addStateForObj (c : DetachedState) (i : ObjId)
    (o : VisibleObjectState) :
    (c.perform (.addStateForObj i o)).1.runnerToObjMap = c.runnerToObjMap := by
  rw [perform_addStateForObj]
  split_ifs <;> rfl

theorem size_perform (c : DetachedState) (u : StateUpdate) :
    (c.perform u).1.runnerToObjMap.size = c.runnerToObjMap.size + u.addsRunner.toNat := by
  cases u with
  | addObject o => rfl
  | addRunner t =>
    obtain ⟨c', heq, -, hm⟩ := c.addRunner_eq t
    show (c.addRunner t).1.runnerToObjMap.size = _
    rw [heq]
    exact InjectiveFunction.size_of_insert c.lookup_size hm
  | addStateForObj i o => rw [runnerToObjMap_perform_addStateForObj]; rfl
  | addStateForRunner p t =>
    rw [perform_addStateForRunner, runnerToObjMap_perform_addStateForObj]
    rfl
  | copy => rfl

theorem lookup_perform (hp : c.runnerToObjMap.lookup p = some i) (u : StateUpdate) :
    (c.perform u).1.runnerToObjMap.lookup p = some i := by
  cases u with
  | addObject o => exact hp
  | addRunner t =>
    obtain ⟨c', heq, -, hm⟩ := c.addRunner_eq t
    have hne : c.runnerToObjMap.size ≠ p := by
      rintro rfl
      rw [c.lookup_size] at hp
      cases hp
    show (c.addRunner t).1.runnerToObjMap.lookup p = _
    rw [heq, InjectiveFunction.lookup_of_insert c.lookup_size hm, if_neg hne, hp]
  | addStateForObj j o => rw [runnerToObjMap_perform_addStateForObj, hp]
  | addStateForRunner q t =>
    rw [perform_addStateForRunner, runnerToObjMap_perform_addStateForObj, hp]
  | copy => exact hp

end DetachedState

/-- Every update is for an object or runner which the difference state contains then. -/
def MutableDiffState.ContainedAlong : MutableDiffState → List StateUpdate → Prop
  | _, [] => True
  | d, u :: us => u.Contained d.queries ∧ (d.perform u).1.ContainedAlong us

/-- What the difference state becomes. -/
def MutableDiffState.after (d : MutableDiffState) (us : List StateUpdate) : MutableDiffState :=
  (performAll perform d us).1

/-- And a detached state. -/
def DetachedState.after (c : DetachedState) (us : List StateUpdate) : DetachedState :=
  (performAll perform c us).1

theorem MutableDiffState.after_cons (d : MutableDiffState) (u : StateUpdate)
    (us : List StateUpdate) : d.after (u :: us) = (d.perform u).1.after us := rfl

theorem DetachedState.after_cons (c : DetachedState) (u : StateUpdate) (us : List StateUpdate) :
    c.after (u :: us) = (c.perform u).1.after us := rfl

namespace MutableDiffState.WellFormed

/-- A difference state which has fewer runners than the detached state stays behind. -/
theorem runnerCount_lt_after (h : WellFormed c d) (hus : d.ContainedAlong us)
    (hlt : c.runnerToObjMap.size + d.newRunners.size < c'.runnerToObjMap.size) :
    (d.after us).runnerCount < (c'.after us).runnerToObjMap.size := by
  induction us generalizing d c' with
  | nil =>
    show d.runnerCount < c'.runnerToObjMap.size
    rw [h.runnerCount_eq]
    exact hlt
  | cons u us ih =>
    rw [after_cons, DetachedState.after_cons]
    refine ih (h.perform hus.1) hus.2 ?_
    rw [c'.size_perform]
    by_cases hu : u = .copy
    · subst hu
      exact lt_of_le_of_lt (Nat.add_le_add_left (Nat.zero_le _) _) hlt
    · rw [h.size_perform hu]
      omega

/-- A copy which is made when there are new runners falls behind. -/
theorem runnerCount_lt_of_copy (h : WellFormed c d) (hus : d.ContainedAlong us)
    (hcopy : .copy ∈ us) (hpos : 0 < d.newRunners.size)
    (hle : c.runnerToObjMap.size + d.newRunners.size ≤ c'.runnerToObjMap.size) :
    (d.after us).runnerCount < (c'.after us).runnerToObjMap.size := by
  induction us generalizing d c' with
  | nil => cases hcopy
  | cons u us ih =>
    rw [after_cons, DetachedState.after_cons]
    by_cases hu : u = .copy
    · subst hu
      have hlt : c.runnerToObjMap.size + (d.perform .copy).1.newRunners.size <
          (c'.perform .copy).1.runnerToObjMap.size := by
        show c.runnerToObjMap.size + 0 < c'.runnerToObjMap.size
        omega
      exact (h.perform hus.1).runnerCount_lt_after hus.2 hlt
    · have hcopy' : .copy ∈ us := List.mem_of_ne_of_mem (Ne.symm hu) hcopy
      refine ih (h.perform hus.1) hus.2 hcopy' ?_ ?_
      · rw [h.size_perform hu]
        omega
      · rw [h.size_perform hu, c'.size_perform]
        omega

/-- Without a copy the new runners keep their objects. -/
theorem lookup_after (h : WellFormed c d) (hus : d.ContainedAlong us) (hcopy : .copy ∉ us)
    (hp : d.newRunners.lookup p = some i) : (d.after us).newRunners.lookup p = some i := by
  induction us generalizing d with
  | nil => exact hp
  | cons u us ih =>
    have hu : u ≠ .copy := fun hu => hcopy (hu ▸ List.mem_cons_self)
    rw [after_cons]
    exact ih (h.perform hus.1) hus.2 (fun hmem => hcopy (List.mem_cons_of_mem _ hmem))
      (h.lookup_perform hu hp)

end MutableDiffState.WellFormed

theorem DetachedState.lookup_after (hp : c.runnerToObjMap.lookup p = some i)
    (us : List StateUpdate) : (c.after us).runnerToObjMap.lookup p = some i := by
  induction us generalizing c with
  | nil => exact hp
  | cons u us ih =>
    rw [after_cons]
    exact ih (c.lookup_perform hp u)

/-! ### What the two states have in common -/

/-- The difference state `d` over a copy of `c` stands for the detached state `c'`. -/
structure Overlays (c : DetachedState) (d : MutableDiffState) (c' : DetachedState) : Prop where
  wellFormed : d.WellFormed c
  objects : ∀ i, c'.visibleObjects[i]? = (d.newObjectStates.lookup i).or c.visibleObjects[i]?
  length_le : c.visibleObjects.length ≤ c'.visibleObjects.length
  runners : ∀ p,
    c'.runnerToObjMap.lookup p = (d.newRunners.lookup p).or (c.runnerToObjMap.lookup p)
  size : c'.runnerToObjMap.size = c.runnerToObjMap.size + d.newRunners.size

/-- No object of the base has an entry. -/
def MutableDiffState.Unlaid (c : DetachedState) (d : MutableDiffState) : Prop :=
  ∀ i, i < c.visibleObjects.length → d.newObjectStates.lookup i = none

namespace Overlays

theorem refl (c : DetachedState) : Overlays c (.ofState c.queries) c := by
  refine ⟨.ofState, fun i => ?_, le_refl _, fun p => ?_, ?_⟩
  · show _ = ((∅ : Finmap fun _ : ObjId => VisibleObjectState).lookup i).or _
    rw [Finmap.lookup_empty, Option.none_or]
  · show _ = ((InjectiveFunction.empty (α := RunnerId) (β := ObjId)).lookup p).or _
    rw [InjectiveFunction.lookup_empty, Option.none_or]
  · show _ = _ + InjectiveFunction.size .empty
    rw [InjectiveFunction.size_empty, Nat.add_zero]

theorem contains_iff (h : Overlays c d c') :
    d.containsObjectWithId i = true ↔ i < c'.visibleObjects.length := by
  have hlen : ∀ os : List VisibleObjectState, os[i]?.isSome = true ↔ i < os.length :=
    fun os => iff_of_eq (isSome_getElem? os i)
  have hbase : c.queries.containsObjectWithId i = true ↔ i < c.visibleObjects.length :=
    decide_eq_true_iff
  rw [← hlen, h.objects, Option.isSome_or, Bool.or_eq_true, hlen,
    MutableDiffState.containsObjectWithId, Bool.or_eq_true, h.wellFormed.base, hbase]

/-- The entries beyond the base are the objects beyond it. -/
theorem keys_beyond (h : Overlays c d c') :
    (d.newObjectStates.keys.filter fun i => ¬ i < c.visibleObjects.length) =
      Finset.Ico c.visibleObjects.length c'.visibleObjects.length := by
  ext i
  rw [Finset.mem_filter, Finset.mem_Ico, Finmap.mem_keys, Finmap.mem_iff, not_lt,
    ← Option.isSome_iff_exists, and_comm]
  refine and_congr_right fun hi => ?_
  have hbase : c.visibleObjects[i]? = none := List.getElem?_eq_none hi
  rw [← h.contains_iff, MutableDiffState.containsObjectWithId, Bool.or_eq_true,
    h.wellFormed.base]
  refine ⟨Or.inl, fun hc => hc.resolve_right fun hlt => ?_⟩
  exact absurd (of_decide_eq_true hlt) (not_lt.mpr hi)

theorem card_keys (h : Overlays c d c') :
    c.visibleObjects.length + d.newObjectStates.keys.card = c'.visibleObjects.length +
      (d.newObjectStates.keys.filter fun i => i < c.visibleObjects.length).card := by
  have hsplit := Finset.card_filter_add_card_filter_not (s := d.newObjectStates.keys)
    (fun i => i < c.visibleObjects.length)
  rw [h.keys_beyond, Nat.card_Ico] at hsplit
  rw [← hsplit, Nat.add_left_comm, Nat.add_sub_cancel' h.length_le, Nat.add_comm]

/-- The next id is the right one exactly when no object of the base has an entry. -/
theorem nextId_eq_iff (h : Overlays c d c') :
    c.visibleObjects.length + d.newObjectStates.keys.card = c'.visibleObjects.length ↔
      d.Unlaid c := by
  rw [h.card_keys, Nat.add_eq_left, Finset.card_eq_zero, Finset.filter_eq_empty_iff]
  refine ⟨fun hall i hi => ?_, fun hunlaid i hmem hi => ?_⟩
  · exact Finmap.lookup_eq_none.mpr fun hmem => hall (Finmap.mem_keys.mpr hmem) hi
  · exact Finmap.lookup_eq_none.mp (hunlaid i hi) (Finmap.mem_keys.mp hmem)

/-! #### The answers to queries -/

theorem count_eq (h : Overlays c d c') : d.count = c'.visibleObjects.length := by
  have hfilter : (d.newObjectStates.keys.filter fun i =>
      d.baseState.containsObjectWithId i = true) =
      d.newObjectStates.keys.filter fun i => i < c.visibleObjects.length := by
    refine Finset.filter_congr fun i _ => ?_
    rw [h.wellFormed.base]
    exact decide_eq_true_iff
  have hcount : d.baseState.count = c.visibleObjects.length := by
    rw [h.wellFormed.base]
    rfl
  rw [MutableDiffState.count, hfilter, hcount, Nat.add_comm, h.card_keys, Nat.add_sub_cancel]

/-- The two halves of the map of the runners do not overlap. -/
theorem lookup_iff (h : Overlays c d c') :
    c'.runnerToObjMap.lookup p = some i ↔
      d.newRunners.lookup p = some i ∨ c.runnerToObjMap.lookup p = some i := by
  rw [h.runners, Option.or_eq_some_iff]
  refine or_congr_right ⟨And.right, fun hp => ⟨?_, hp⟩⟩
  have hlt : p < c.runnerToObjMap.size := by
    rw [← Finset.mem_range, ← c.keys_eq_range, Finmap.mem_keys]
    exact Finmap.mem_of_lookup_eq_some hp
  rw [← Option.not_isSome_iff_eq_none, h.wellFormed.newRunner_iff]
  exact fun hge => absurd hlt (not_lt.mpr hge.1)

theorem rangeLookup_eq (h : Overlays c d c') (i : ObjId) :
    c'.runnerToObjMap.rangeLookup i =
      (d.newRunners.rangeLookup i).or (c.runnerToObjMap.rangeLookup i) := by
  refine Option.ext fun p => ?_
  rw [← InjectiveFunction.lookup_eq_some_iff, h.lookup_iff, Option.or_eq_some_iff,
    InjectiveFunction.lookup_eq_some_iff, InjectiveFunction.lookup_eq_some_iff]
  refine or_congr_right ⟨fun hp => ⟨?_, hp⟩, And.right⟩
  cases hnew : d.newRunners.rangeLookup i with
  | none => rfl
  | some q =>
    -- The object of a new runner lies beyond those of the base.
    have hge := (h.wellFormed.newRunner_entry q i (InjectiveFunction.lookup_eq_some_iff.mpr hnew)).1
    exact absurd (c.lookup_lt (InjectiveFunction.lookup_eq_some_iff.mpr hp)) (not_lt.mpr hge)

theorem getObjidForRunner_eq (h : Overlays c d c') (p : RunnerId) :
    d.getObjidForRunner p = c'.runnerToObjMap.lookup p := by
  rw [MutableDiffState.getObjidForRunner, h.runners, h.wellFormed.base]
  cases d.newRunners.lookup p <;> rfl

theorem getRunnerIdForObj_eq (h : Overlays c d c') (i : ObjId) :
    d.getRunnerIdForObj i = c'.runnerToObjMap.rangeLookup i := by
  rw [MutableDiffState.getRunnerIdForObj, h.rangeLookup_eq, h.wellFormed.base]
  cases d.newRunners.rangeLookup i <;> rfl

theorem isRunner_eq (h : Overlays c d c') (i : ObjId) :
    d.isRunner i = (c'.runnerToObjMap.rangeLookup i).isSome := by
  rw [MutableDiffState.isRunner, h.rangeLookup_eq, h.wellFormed.base, Option.isSome_or]
  rfl

theorem containsRunnerWithId_eq (h : Overlays c d c') (p : RunnerId) :
    d.containsRunnerWithId p = (c'.runnerToObjMap.lookup p).isSome := by
  rw [MutableDiffState.containsRunnerWithId, h.runners, h.wellFormed.base, Option.isSome_or]
  rfl

theorem getStateOfObject_eq (h : Overlays c d c') (i : ObjId) :
    d.getStateOfObject i = c'.getStateOfObject i := by
  rw [MutableDiffState.getStateOfObject, DetachedState.getStateOfObject, h.objects,
    h.wellFormed.base]
  cases d.newObjectStates.lookup i <;> rfl

/-- The state of a runner is the right one unless it is a runner of the base whose object has
another state than in the base. -/
theorem getStateOfRunner_eq_iff (h : Overlays c d c') :
    d.getStateOfRunner = c'.queries.getStateOfRunner ↔
      ∀ p i, c.runnerToObjMap.lookup p = some i →
        c.getStateOfObject i = c'.getStateOfObject i := by
  have hnone : ∀ p i, c.runnerToObjMap.lookup p = some i → d.newRunners.lookup p = none := by
    intro p i hp
    cases hnew : d.newRunners.lookup p with
    | none => rfl
    | some j =>
      have hsame := (h.lookup_iff.mpr (.inl hnew)).symm.trans (h.lookup_iff.mpr (.inr hp))
      rw [Option.some.inj hsame] at hnew
      exact absurd (c.lookup_lt hp) (not_lt.mpr (h.wellFormed.newRunner_entry p i hnew).1)
  have hbase : ∀ p i, c.runnerToObjMap.lookup p = some i →
      (d.getStateOfRunner p = c'.queries.getStateOfRunner p ↔
        c.getStateOfObject i = c'.getStateOfObject i) := by
    intro p i hp
    have hd : d.getStateOfRunner p = c.getStateOfObject i := by
      rw [MutableDiffState.getStateOfRunner, hnone p i hp, h.wellFormed.base]
      simp only [DetachedState.queries, hp]
    have hc : c'.queries.getStateOfRunner p = c'.getStateOfObject i := by
      simp only [DetachedState.queries, h.lookup_iff.mpr (.inr hp)]
    rw [hd, hc]
  constructor
  · intro heq p i hp
    exact (hbase p i hp).mp (congrFun heq p)
  · intro hall
    funext p
    cases hp : c.runnerToObjMap.lookup p with
    | some i => exact (hbase p i hp).mpr (hall p i hp)
    | none =>
      have hrunner : c'.runnerToObjMap.lookup p = d.newRunners.lookup p := by
        rw [h.runners, hp, Option.or_none]
      simp only [MutableDiffState.getStateOfRunner, DetachedState.queries, hrunner]
      cases d.newRunners.lookup p with
      | some i => exact h.getStateOfObject_eq i
      | none =>
        rw [h.wellFormed.base]
        simp only [DetachedState.queries, hp]

/-- All other queries are answered alike. -/
theorem queries_eq_iff (h : Overlays c d c') :
    d.queries = c'.queries ↔
      ∀ p i, c.runnerToObjMap.lookup p = some i →
        c.getStateOfObject i = c'.getStateOfObject i := by
  rw [← h.getStateOfRunner_eq_iff]
  refine ⟨fun heq => congrArg StateQueries.getStateOfRunner heq, fun hrunner => ?_⟩
  refine StateQueries.ext h.count_eq ?_ (funext h.isRunner_eq) (funext fun i => ?_)
    (funext h.containsRunnerWithId_eq) (funext h.getObjidForRunner_eq)
    (funext h.getRunnerIdForObj_eq) (funext h.getStateOfObject_eq) hrunner
  · exact h.wellFormed.runnerCount_eq.trans h.size.symm
  · exact Bool.eq_iff_iff.mpr (h.contains_iff.trans decide_eq_true_iff.symm)

/-! #### Updates -/

/-- The new entry of an object which is put at the end. -/
theorem objects_concat (h : Overlays c d c') (o : VisibleObjectState) (i : ObjId) :
    (c'.visibleObjects ++ [o])[i]? =
      ((d.newObjectStates.insert c'.visibleObjects.length o).lookup i).or
        c.visibleObjects[i]? := by
  rw [lookup_insert]
  rcases lt_trichotomy i c'.visibleObjects.length with hi | rfl | hi
  · rw [if_neg hi.ne', List.getElem?_append_left hi]
    exact h.objects i
  · rw [if_pos rfl, List.getElem?_concat_length]
    rfl
  · have hnone : (c'.visibleObjects ++ [o])[i]? = none := by
      refine List.getElem?_eq_none ?_
      rw [List.length_append]
      exact hi
    rw [if_neg hi.ne, hnone, ← h.objects, List.getElem?_eq_none hi.le]

theorem addObject (h : Overlays c d c') (hunlaid : d.Unlaid c) (o : VisibleObjectState) :
    (d.perform (.addObject o)).2 = (c'.perform (.addObject o)).2 ∧
      Overlays c (d.perform (.addObject o)).1 (c'.perform (.addObject o)).1 := by
  have hid : (d.addObject o).2 = c'.visibleObjects.length := by
    rw [h.wellFormed.nextId_eq, h.nextId_eq_iff]
    exact hunlaid
  refine ⟨?_, h.wellFormed.perform trivial, fun i => ?_, ?_, h.runners, h.size⟩
  · show Except.ok (StateUpdate.Answer.objid (d.addObject o).2) =
      .ok (.objid c'.visibleObjects.length)
    rw [hid]
  · show (c'.visibleObjects ++ [o])[i]? =
      ((d.newObjectStates.insert (d.addObject o).2 o).lookup i).or c.visibleObjects[i]?
    rw [hid]
    exact h.objects_concat o i
  · show _ ≤ (c'.visibleObjects ++ [o]).length
    rw [List.length_append]
    exact Nat.le_add_right_of_le h.length_le

theorem addRunner (h : Overlays c d c') (hunlaid : d.Unlaid c) (t : Thread) :
    (d.perform (.addRunner t)).2 = (c'.perform (.addRunner t)).2 ∧
      Overlays c (d.perform (.addRunner t)).1 (c'.perform (.addRunner t)).1 := by
  have hwf := h.wellFormed.perform (u := .addRunner t) trivial
  obtain ⟨m, hm, heq⟩ := h.wellFormed.addRunner_eq t
  obtain ⟨c₁, heq', hobjects, hm'⟩ := c'.addRunner_eq t
  have hid := h.nextId_eq_iff.mpr hunlaid
  have hd : d.perform (.addRunner t) =
      ((d.addRunner t).1, (d.addRunner t).2.map .runnerId) := rfl
  have hc : c'.perform (.addRunner t) =
      ((c'.addRunner t).1, (c'.addRunner t).2.map .runnerId) := rfl
  rw [hd, heq] at hwf ⊢
  rw [hc, heq']
  refine ⟨?_, hwf, fun i => ?_, ?_, fun p => ?_, ?_⟩
  · show Except.ok (StateUpdate.Answer.runnerId _) = .ok (.runnerId c'.runnerToObjMap.size)
    rw [h.size]
  · show c₁.visibleObjects[i]? = _
    rw [hobjects, hid]
    exact h.objects_concat _ i
  · show _ ≤ c₁.visibleObjects.length
    rw [hobjects, List.length_append]
    exact Nat.le_add_right_of_le h.length_le
  · show c₁.runnerToObjMap.lookup p = (m.lookup p).or _
    rw [InjectiveFunction.lookup_of_insert c'.lookup_size hm',
      InjectiveFunction.lookup_of_insert h.wellFormed.lookup_next hm, ← h.size, hid]
    split_ifs
    · rfl
    · exact h.runners p
  · show c₁.runnerToObjMap.size = _ + m.size
    rw [InjectiveFunction.size_of_insert c'.lookup_size hm',
      InjectiveFunction.size_of_insert h.wellFormed.lookup_next hm, h.size, Nat.add_assoc]

theorem addStateForObj (h : Overlays c d c') (hi : d.containsObjectWithId i = true)
    (o : VisibleObjectState) :
    (d.perform (.addStateForObj i o)).2 = (c'.perform (.addStateForObj i o)).2 ∧
      Overlays c (d.perform (.addStateForObj i o)).1 (c'.perform (.addStateForObj i o)).1 := by
  have hwf := h.wellFormed.giveState hi (o := o)
  have hlt := h.contains_iff.mp hi
  rw [MutableDiffState.perform_addStateForObj] at hwf ⊢
  rw [DetachedState.perform_addStateForObj]
  by_cases hinvalid : i = objidInvalid
  · rw [if_pos hinvalid, if_pos hinvalid]
    exact ⟨rfl, h⟩
  · rw [if_neg hinvalid] at hwf ⊢
    rw [if_neg hinvalid, if_pos hlt]
    refine ⟨rfl, hwf, fun j => ?_, ?_, h.runners, h.size⟩
    · show (c'.visibleObjects.set i o)[j]? = ((d.newObjectStates.insert i o).lookup j).or _
      rw [lookup_insert, List.getElem?_set, if_pos hlt]
      split_ifs
      · rfl
      · exact h.objects j
    · show _ ≤ (c'.visibleObjects.set i o).length
      rw [List.length_set]
      exact h.length_le

/-- A copy of a state without new runners is the state. -/
theorem copy (h : Overlays c d c') (hsize : d.newRunners.size = 0) :
    Overlays c d.copy c' := by
  refine ⟨h.wellFormed.perform (u := .copy) trivial, h.objects, h.length_le, fun p => ?_, ?_⟩
  · show _ = ((InjectiveFunction.empty (α := RunnerId) (β := ObjId)).lookup p).or _
    have hnew : d.newRunners.lookup p = none := by
      rw [← Option.not_isSome_iff_eq_none, h.wellFormed.newRunner_iff, hsize]
      exact fun hp => absurd hp.2 (not_lt.mpr hp.1)
    rw [h.runners, hnew, InjectiveFunction.lookup_empty]
  · show _ = _ + InjectiveFunction.size .empty
    rw [h.size, hsize, InjectiveFunction.size_empty]

/-- What an update does to both states, if it does not come too late. -/
theorem perform (h : Overlays c d c') (hu : u.Contained d.queries)
    (hadds : u.adds = true → d.Unlaid c) (hcopy : u = .copy → d.newRunners.size = 0) :
    (d.perform u).2 = (c'.perform u).2 ∧ Overlays c (d.perform u).1 (c'.perform u).1 := by
  cases u with
  | addObject o => exact h.addObject (hadds rfl) o
  | addRunner t => exact h.addRunner (hadds rfl) t
  | addStateForObj i o => exact h.addStateForObj hu o
  | addStateForRunner p t =>
    obtain ⟨i, hp, hi, -, heq⟩ := h.wellFormed.addStateForRunner_eq hu
    have hp' : c'.queries.getObjidForRunner p = some i := by
      rw [← hp, h.getObjidForRunner_eq]
      rfl
    rw [heq, DetachedState.perform_addStateForRunner, hp']
    exact h.addStateForObj hi _
  | copy => exact ⟨rfl, h.copy (hcopy rfl)⟩

end Overlays

end McMini
