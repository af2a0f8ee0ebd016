import McMini.Model.Footprint
import McMini.Model.StateSequence

/-!
# State sequences and runs

A state sequence is *current* when its representative sees every object in its last state
and every runner. Following a transition from a current sequence is executing it on the
state which represents the sequence (`Current.follow`), and the result is current
again. So the sequences which arise by following transitions carry exactly the runs of the
transition system of `McMini/Model/Execution.lean` (`followAll_refines`).
-/

namespace McMini

open Foundation

/-! ### The base of a difference state -/

namespace DiffState

/-- The operation leaves a difference from the same base state. -/
def KeepsBase (s : State) (r : Except Failure (Status × DiffState)) : Prop :=
  ∀ st d, r = .ok (st, d) → d.baseState = s

variable {s : State} {d : DiffState}

theorem keepsBase_pure {st : Status} (h : d.baseState = s) : KeepsBase s (pure (st, d)) := by
  intro st' d' heq
  obtain ⟨-, rfl⟩ := Prod.mk.inj (Except.ok.inj heq)
  exact h

theorem keepsBase_throw {e : Failure} : KeepsBase s (throw e) := by
  intro st d heq
  cases heq

theorem keepsBase_bind {α : Type} {x : Except Failure α}
    {f : α → Except Failure (Status × DiffState)} (h : ∀ a, x = .ok a → KeepsBase s (f a)) :
    KeepsBase s (x >>= f) := by
  intro st d heq
  obtain ⟨a, ha, hf⟩ := bind_eq_ok.mp heq
  exact h a ha st d hf

theorem keepsBase_ite {c : Prop} [Decidable c] {x y : Except Failure (Status × DiffState)}
    (hx : KeepsBase s x) (hy : KeepsBase s y) : KeepsBase s (if c then x else y) := by
  by_cases hc : c
  · rw [if_pos hc]
    exact hx
  · rw [if_neg hc]
    exact hy

theorem baseState_replaceStateForObj {d' : DiffState} {i : ObjId} {o : VisibleObjectState}
    (h : d.replaceStateForObj i o = .ok d') : d'.baseState = d.baseState := by
  obtain ⟨-, rfl⟩ := replaceStateForObj_eq_ok.mp h
  rfl

theorem baseState_replaceStateForRunner {d' : DiffState} {p : RunnerId} {t : Thread}
    (h : d.replaceStateForRunner p t = .ok d') : d'.baseState = d.baseState := by
  unfold replaceStateForRunner at h
  split at h
  · cases h
  · exact baseState_replaceStateForObj h

end DiffState

open DiffState in
/-- No transition changes the base. -/
theorem Transition.keepsBase_modify (t : Transition) (s : State) :
    KeepsBase s (t.modify (ofState s)) := by
  have hobj : ∀ {d : DiffState} {i o f}, d.baseState = s →
      (∀ d', d'.baseState = s → KeepsBase s (f d')) →
      KeepsBase s (d.replaceStateForObj i o >>= f) := fun hd hf =>
    keepsBase_bind fun d' hd' => hf d' ((baseState_replaceStateForObj hd').trans hd)
  have hrunner : ∀ {d : DiffState} {p th f}, d.baseState = s →
      (∀ d', d'.baseState = s → KeepsBase s (f d')) →
      KeepsBase s (d.replaceStateForRunner p th >>= f) := fun hd hf =>
    keepsBase_bind fun d' hd' => hf d' ((baseState_replaceStateForRunner hd').trans hd)
  obtain ⟨p, op⟩ := t
  cases op with
  | mutexInit m =>
    exact keepsBase_bind fun _ _ => hobj rfl fun _ hd => keepsBase_pure hd
  | mutexLock m =>
    exact keepsBase_bind fun _ _ => keepsBase_ite (keepsBase_pure rfl)
      (hobj rfl fun _ hd => keepsBase_pure hd)
  | mutexUnlock m =>
    exact keepsBase_bind fun _ _ => keepsBase_ite (keepsBase_pure rfl)
      (hobj rfl fun _ hd => keepsBase_pure hd)
  | conditionVariableInit c => exact hobj rfl fun _ hd => keepsBase_pure hd
  | conditionVariableEnqueueThread c m =>
    exact keepsBase_bind fun _ _ => keepsBase_bind fun _ _ => keepsBase_ite (keepsBase_pure rfl)
      (keepsBase_ite (keepsBase_pure rfl)
        (hobj rfl fun _ hd => hobj hd fun _ hd => keepsBase_pure hd))
  | conditionVariableWait c m =>
    refine keepsBase_bind fun cv _ => keepsBase_bind fun m _ => keepsBase_ite (keepsBase_pure rfl)
      (keepsBase_ite (keepsBase_pure rfl) (keepsBase_ite (keepsBase_pure rfl)
        (hobj rfl fun d hd => ?_)))
    cases cv.wait p m.location with
    | none => exact keepsBase_throw
    | some newCv => exact hobj hd fun _ hd => keepsBase_pure hd
  | conditionVariableSignal c | conditionVariableBroadcast c | conditionVariableDestroy c =>
    exact keepsBase_bind fun _ _ => keepsBase_ite (keepsBase_pure rfl)
      (keepsBase_ite (keepsBase_pure rfl) (keepsBase_ite (keepsBase_pure rfl)
        (hobj rfl fun _ hd => keepsBase_pure hd)))
  | semInit i n => exact hobj rfl fun _ hd => keepsBase_pure hd
  | semPost i => exact keepsBase_bind fun _ _ => hobj rfl fun _ hd => keepsBase_pure hd
  | semWait i =>
    exact keepsBase_bind fun _ _ => keepsBase_ite (keepsBase_pure rfl)
      (hobj rfl fun _ hd => keepsBase_pure hd)
  | threadCreate target => exact hrunner rfl fun _ hd => keepsBase_pure hd
  | threadStart | threadJoin target => exact keepsBase_bind fun _ _ => keepsBase_pure rfl
  | threadExit =>
    exact keepsBase_bind fun _ _ => keepsBase_ite (keepsBase_pure rfl)
      (hrunner rfl fun _ hd => keepsBase_pure hd)
  | processExit n => exact hrunner rfl fun _ hd => keepsBase_pure hd
  | processAbort => exact keepsBase_pure rfl

namespace StateSequence

/-- The representative sees the last states of all objects, and all runners. -/
structure Current (s : StateSequence) : Prop where
  indices : ∀ id, s.representative.visibleObjectIndices.lookup id =
    (s.visibleObjects[id]?).map VisibleObject.getLastStateIndex
  runners : s.representative.maxVisibleRunnerId = s.runnerToObjMap.size

variable {s s' : StateSequence} {t : Transition} {id : ObjId}

theorem current_pushStateSnapshot (s : StateSequence) : s.pushStateSnapshot.Current :=
  ⟨fun _ => Element.lastIndices_lookup, rfl⟩

/-- The state which represents a current sequence consists of the last states. -/
theorem Current.objectState (h : s.Current) (id : ObjId) :
    s.toState.objectState id =
      (s.visibleObjects[id]?).map fun v => v.history.getLast v.history_ne_nil := by
  have hindex := h.indices id
  cases hv : s.visibleObjects[id]? with
  | none => simp [toState, stateAt, getStateOfObjectAt, hv, Except.toOption]
  | some v =>
    rw [hv, Option.map_some] at hindex
    simp [toState, stateAt, getStateOfObjectAt, hv, hindex, v.history_getLastStateIndex,
      Except.toOption]

theorem pushNewStates_getElem? (objects : List VisibleObject)
    {newStates : List (Sigma fun _ : ObjId => VisibleObjectState)} (h : newStates.NodupKeys) :
    (pushNewStates objects newStates)[id]? = (objects[id]?).map fun v =>
      (newStates.dlookup id).elim v v.pushState := by
  induction newStates generalizing objects with
  | nil => simp [pushNewStates]
  | cons new newStates ih =>
    obtain ⟨hnew, hrest⟩ := List.nodupKeys_cons.mp h
    have hunfold : pushNewStates objects (new :: newStates) =
        pushNewStates (objects.modify new.1 (·.pushState new.2)) newStates := rfl
    rw [hunfold, ih _ hrest, List.getElem?_modify]
    by_cases hid : new.1 = id
    · subst hid
      have hnone : newStates.dlookup new.1 = none := List.dlookup_eq_none.mpr hnew
      cases objects[new.1]? <;> simp [hnone, List.dlookup_cons_eq newStates new.1 new.2]
    · cases objects[id]? <;> simp [hid, List.dlookup_cons_ne _ new (Ne.symm hid)]

theorem current_record (s : StateSequence) (d : DiffState) : (s.record d).Current :=
  current_pushStateSnapshot _

/-- Recorded states are appended to the histories. -/
theorem record_visibleObjects (s : StateSequence) (d : DiffState) (id : ObjId) :
    (s.record d).visibleObjects[id]? =
      (s.visibleObjects[id]?).map fun v => (d.newObjectStates.lookup id).elim v v.pushState :=
  pushNewStates_getElem? _ d.newObjectStates.nodupKeys

/-- The state which is appended has the objects in their new states, and else in the last ones. -/
theorem record_objectState (s : StateSequence) (d : DiffState) (id : ObjId) :
    (s.record d).toState.objectState id = (s.visibleObjects[id]?).map fun v =>
      (d.newObjectStates.lookup id).getD (v.history.getLast v.history_ne_nil) := by
  rw [(current_record s d).objectState, record_visibleObjects, Option.map_map]
  refine congrArg (Option.map · _) (funext fun v => ?_)
  rw [Function.comp_apply]
  cases d.newObjectStates.lookup id with
  | none => rfl
  | some o => simp

/-- What following a transition has done when the transition exists. -/
theorem follow_eq_exists (h : s.follow t = (s', .ok .exists')) :
    ∃ d : DiffState, t.applyTo s.toState = .ok (d, .exists') ∧ d.baseState = s.toState ∧
      s' = s.record d := by
  unfold StateSequence.follow at h
  cases happly : t.applyTo s.toState with
  | error e => simp [happly] at h
  | ok result =>
    obtain ⟨d, st⟩ := result
    cases st with
    | disabled | undefined => simp [happly] at h
    | exists' =>
      simp only [happly, Prod.mk.injEq, and_true] at h
      obtain ⟨-, hmodify⟩ := Transition.applyTo_eq_ok_exists.mp happly
      exact ⟨d, rfl, t.keepsBase_modify s.toState _ d hmodify, h.symm⟩

/-- Following a transition from a current sequence executes it on the represented state. -/
theorem Current.follow (h : s.Current) (hfollow : s.follow t = (s', .ok .exists')) :
    fire t s.toState = some s'.toState ∧ s'.Current := by
  obtain ⟨d, happly, hbase, rfl⟩ := follow_eq_exists hfollow
  refine ⟨?_, current_record s d⟩
  have hfire : fire t s.toState = some d.toState := by simp [fire, happly]
  rw [hfire, Option.some.injEq]
  ext : 1
  · funext id
    have htype := (fire_eq_some_iff_step.mp hfire).objectType_eq id
    have hnew : d.toState.objectState id =
        (d.newObjectStates.lookup id).or (s.toState.objectState id) := by
      rw [← hbase]
      rfl
    rw [record_objectState]
    rw [hnew, h.objectState] at htype ⊢
    cases hv : s.visibleObjects[id]? with
    | none =>
      -- a transition replaces the states of objects which are there
      cases hlookup : d.newObjectStates.lookup id with
      | none => rfl
      | some o => simp [hlookup, hv] at htype
    | some v => cases d.newObjectStates.lookup id <;> simp
  · funext p
    have hrunners : d.toState.objidForRunner p = s.toState.objidForRunner p := by
      rw [← hbase]
      rfl
    rw [hrunners]
    simp [toState, stateAt, getObjidForRunnerAt, containsRunnerWithIdAt, snapshot, record,
      StateSequence.pushStateSnapshot, h.runners]

/-- Following a transition, as a partial function defined where the transition exists. -/
def followStep (t : Transition) (s : StateSequence) : Option StateSequence :=
  match s.follow t with
  | (s', .ok .exists') => some s'
  | _ => none

theorem followStep_eq_some_iff :
    followStep t s = some s' ↔ s.follow t = (s', .ok .exists') := by
  unfold followStep
  rcases s.follow t with ⟨s'', _ | _ | _ | _⟩ <;> simp

/-- **State sequences refine runs.** Following the transitions of a list from a current
sequence executes the list on the state which represents it. -/
theorem followAll_refines (h : s.Current) {tr : List Transition}
    (hrun : runFrom followStep s tr = some s') :
    run s.toState tr = some s'.toState ∧ s'.Current := by
  induction tr generalizing s with
  | nil =>
    obtain rfl : s = s' := by simpa using hrun
    exact ⟨rfl, h⟩
  | cons t tr ih =>
    obtain ⟨s₁, hs₁, hrest⟩ := runFrom_cons_eq_some.mp hrun
    obtain ⟨hfire, hcurrent⟩ := h.follow (followStep_eq_some_iff.mp hs₁)
    obtain ⟨hrun', hcurrent'⟩ := ih hcurrent hrest
    exact ⟨runFrom_cons_eq_some.mpr ⟨_, hfire, hrun'⟩, hcurrent'⟩

end StateSequence

end McMini
