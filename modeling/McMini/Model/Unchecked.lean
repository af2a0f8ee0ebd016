import McMini.Model.Coordinator

/-!
# Recording states of any objects

`add_state_for_obj` records a state for an object without a look at the object. Most transitions
have looked: they have found the object, at the class of the state which they record. Three have
not. `cond_init` and `sem_init` set their object up whatever it is, and `thread_create` knows of the
runner only that it has an object. The object may be of another class, when its address is used for
something else, or the current state may not contain it, when it has been left by an abandoned
branch of the exploration. The transitions of `McMini/Model/Transition.lean` fail there.

Here states are recorded as in the source. Reading an object at a wrong type remains a failure, and
so does pushing a state to an object beyond the owner's list. Whatever the transitions which fail on
other objects do, these do as well (`Unchecked.follow_of_follow`,
`Unchecked.executeRunner_run_of_run`).
-/

namespace McMini.Unchecked

open Foundation

/-! ### Transitions -/

/-- `modify`. All but three transitions replace the states of objects which they have found. -/
def modify (t : Transition) (s : DiffState) : Except Failure (Status × DiffState) :=
  match t.op with
  | .conditionVariableInit condId => do
    let s ← s.addStateForObj condId (.conditionVariable { currentState := .initialized })
    return (.exists', s)
  | .semInit semId count => do
    let s ← s.addStateForObj semId (.semaphore (.ofCount count))
    return (.exists', s)
  | .threadCreate target => do
    let s ← s.addStateForRunner target ⟨.running⟩
    return (.exists', s)
  | _ => t.modify s

def applyTo (t : Transition) (s : State) : Except Failure (DiffState × Status) :=
  Transition.applyBy (modify t) t.executor s

def isEnabledIn (t : Transition) (s : State) : Except Failure Bool := do
  let (_, status) ← applyTo t s
  return status == .exists'

/-- The objects with new states are those which the sequence owns. -/
def Owned (s : StateSequence) (result : DiffState) : Prop :=
  ∀ id ∈ result.newObjectStates.keys, id < s.visibleObjects.length

instance (s : StateSequence) (result : DiffState) : Decidable (Owned s result) :=
  inferInstanceAs (Decidable (∀ id ∈ result.newObjectStates.keys, id < s.visibleObjects.length))

/-- The new states are pushed by an index which is not checked. -/
def follow (s : StateSequence) (t : Transition) : StateSequence × Except Failure Status :=
  match applyTo t s.toState with
  | .error e => (s, .error e)
  | .ok (result, .exists') =>
    if Owned s result then (s.record result, .ok .exists')
    else (s, .error (.undefinedBehavior "visible_objects[id]"))
  | .ok (_, status) => (s, .ok status)

/-! ### Programs -/

def isInDeadlock (p : Program) : Except Failure Bool :=
  p.isInDeadlockBy fun t => isEnabledIn t p.stateSeq.toState

def modelExecutionOf (p : Program) (runner : RunnerId) (npo : Transition) :
    Except Failure Program :=
  p.modelExecutionBy (follow p.stateSeq) runner npo

/-! ### The coordinator -/

section

variable (source : ProcessSource)

/-- Executes the runner in the process and in the model. -/
def executeRunner (p : RunnerId) : CoordinatorM Unit := do
  let contents ← processExecute source p
  let pendingOperation ← callback p contents
  let c ← get
  match modelExecutionOf c.currentProgramModel p pendingOperation with
  | .error e => throw e
  | .ok program => set { c with currentProgramModel := program }

/-- The coordinator after a call, and the outcome of the call. -/
def apply (call : CoordinatorCall) (c : Coordinator) : Except Failure Unit × Coordinator :=
  match call with
  | .executeRunner p => (executeRunner source p).run c
  | .returnToDepth n => (returnToDepth source n).run c

/-- The coordinator after an exploration. An exception which a call throws is caught. -/
def explore (c : Coordinator) (history : List CoordinatorCall) : Coordinator :=
  history.foldl (fun c call => (apply source call c).2) c

end

theorem explore_concat (source : ProcessSource) (c : Coordinator) (history : List CoordinatorCall)
    (call : CoordinatorCall) :
    explore source c (history ++ [call]) = (apply source call (explore source c history)).2 := by
  rw [explore, List.foldl_append]
  rfl

/-! ### What the transitions do -/

/-- The transition sets the object up, without a look at it. -/
inductive SetsUp (t : Transition) (s : State) : ObjId → VisibleObjectState → Prop
  | conditionVariable {i : ObjId} (hop : t.op = .conditionVariableInit i) :
      SetsUp t s i (.conditionVariable { currentState := .initialized })
  | semaphore {i : ObjId} {n : BitVec 32} (hop : t.op = .semInit i n) :
      SetsUp t s i (.semaphore (.ofCount n))
  | thread {q : RunnerId} {i : ObjId} (hop : t.op = .threadCreate q)
      (hi : s.objidForRunner q = some i) : SetsUp t s i (.thread ⟨.running⟩)

section Transitions

variable {s : State} {t : Transition} {d : DiffState} {i : ObjId} {o : VisibleObjectState}
  {r : Status × DiffState}

/-- **A transition which exists** has found what it replaces, or sets an object up. -/
theorem modify_cases (h : modify t (DiffState.ofState s) = .ok (.exists', d)) :
    t.modify (DiffState.ofState s) = .ok (.exists', d) ∨
      ∃ i o, SetsUp t s i o ∧ d = (DiffState.ofState s).insertState i o := by
  have hset : ∀ {i o}, ((DiffState.ofState s).addStateForObj i o >>= fun d' =>
      pure (Status.exists', d')) = .ok (.exists', d) →
      i ≠ objidInvalid ∧ d = (DiffState.ofState s).insertState i o := by
    intro i o hadd
    obtain ⟨d', hd', hpure⟩ := bind_eq_ok.mp hadd
    obtain ⟨hi, rfl⟩ := DiffState.addStateForObj_eq_ok.mp hd'
    exact ⟨hi, (Prod.mk.inj (Except.ok.inj hpure)).2.symm⟩
  unfold modify at h
  split at h
  · next hop => exact .inr ⟨_, _, .conditionVariable hop, (hset h).2⟩
  · next hop => exact .inr ⟨_, _, .semaphore hop, (hset h).2⟩
  · next target hop =>
    obtain ⟨hi, hd⟩ := hset h
    rw [DiffState.toState_ofState] at hi hd
    cases hobject : s.objidForRunner target with
    | none =>
      rw [hobject] at hi
      exact absurd rfl hi
    | some i =>
      rw [hobject] at hd
      exact .inr ⟨_, _, .thread hop hobject, hd⟩
  · exact .inl h

/-- Where the transition does not fail on other objects, it does what it does there. -/
theorem modify_of_modify (hvalid : s.objectState objidInvalid = none)
    (h : t.modify (DiffState.ofState s) = .ok r) : modify t (DiffState.ofState s) = .ok r := by
  have hset : ∀ {i o}, (DiffState.ofState s).replaceStateForObj i o >>= (fun d' =>
      pure (Status.exists', d')) = .ok r →
      (DiffState.ofState s).addStateForObj i o >>= (fun d' => pure (Status.exists', d')) =
        .ok r := by
    intro i o hreplace
    obtain ⟨d', hd', hpure⟩ := bind_eq_ok.mp hreplace
    obtain ⟨⟨old, hold, -⟩, rfl⟩ := DiffState.replaceStateForObj_eq_ok.mp hd'
    rw [DiffState.toState_ofState] at hold
    have hi : i ≠ objidInvalid := by
      rintro rfl
      exact Option.some_ne_none old (hold.symm.trans hvalid)
    exact bind_eq_ok.mpr ⟨_, DiffState.addStateForObj_eq_ok.mpr ⟨hi, rfl⟩, hpure⟩
  unfold modify
  unfold Transition.modify at h
  split
  · next hop =>
    rw [hop] at h
    exact hset h
  · next hop =>
    rw [hop] at h
    exact hset h
  · next target hop =>
    rw [hop] at h
    obtain ⟨d', hd', hpure⟩ := bind_eq_ok.mp h
    unfold DiffState.replaceStateForRunner at hd'
    split at hd'
    · cases hd'
    · next i hi =>
      have hadd := hset (bind_eq_ok.mpr ⟨d', hd', hpure⟩)
      rw [DiffState.addStateForRunner, hi]
      exact hadd
  · exact h

theorem applyTo_eq_ok_exists : applyTo t s = .ok (d, .exists') ↔
    s.Active t.executor ∧ modify t (DiffState.ofState s) = .ok (.exists', d) :=
  Transition.applyBy_eq_ok_exists

theorem applyTo_of_applyTo (hvalid : s.objectState objidInvalid = none) {st : Status}
    (h : t.applyTo s = .ok (d, st)) : applyTo t s = .ok (d, st) := by
  unfold applyTo Transition.applyBy
  unfold Transition.applyTo Transition.applyBy at h
  obtain ⟨th, hth, h⟩ := bind_eq_ok.mp h
  refine bind_eq_ok.mpr ⟨th, hth, ?_⟩
  split_ifs at h ⊢ with hactive
  · exact h
  · obtain ⟨r, hr, h⟩ := bind_eq_ok.mp h
    exact bind_eq_ok.mpr ⟨r, modify_of_modify hvalid hr, h⟩

/-- A transition can be examined only in a state which has its executor. -/
theorem getStateOfRunner_of_isEnabledIn {b : Bool} (h : isEnabledIn t s = .ok b) :
    ∃ th, s.getStateOfRunner t.executor = .ok th := by
  obtain ⟨_, happly, -⟩ := bind_eq_ok.mp h
  obtain ⟨th, hth, -⟩ := bind_eq_ok.mp happly
  exact ⟨th, hth⟩

theorem baseState_of_applyTo (h : applyTo t s = .ok (d, .exists')) : d.baseState = s := by
  obtain ⟨-, hmodify⟩ := applyTo_eq_ok_exists.mp h
  rcases modify_cases hmodify with hchecked | ⟨i, o, -, rfl⟩
  · exact t.keepsBase_modify s _ d hchecked
  · rfl

/-- The state after a transition which exists. -/
theorem step_or_setsUp (h : applyTo t s = .ok (d, .exists')) :
    Step s t d.toState ∨ ∃ i o, SetsUp t s i o ∧ d.toState = s.setObjectState i o := by
  obtain ⟨hactive, hmodify⟩ := applyTo_eq_ok_exists.mp h
  rcases modify_cases hmodify with hchecked | ⟨i, o, hset, rfl⟩
  · exact .inl (fire_eq_some_iff_step.mp (fire_eq_some_iff.mpr ⟨hactive, d, hchecked, rfl⟩))
  · refine .inr ⟨i, o, hset, ?_⟩
    rw [DiffState.toState_insertState, DiffState.toState_ofState]

end Transitions

/-! ### What the sequences do -/

section Sequences

variable {s s' : StateSequence} {t : Transition}

theorem owned_iff {d : DiffState} : Owned s d ↔
    ∀ id o, d.newObjectStates.lookup id = some o → id < s.visibleObjects.length := by
  refine forall_congr' fun id => ?_
  rw [AList.mem_keys.symm, ← AList.lookup_isSome, Option.isSome_iff_exists, forall_exists_index]

/-- What following a transition has done when the transition exists. -/
theorem follow_eq_exists (h : follow s t = (s', .ok .exists')) :
    ∃ d, applyTo t s.toState = .ok (d, .exists') ∧ Owned s d ∧ s' = s.record d := by
  unfold follow at h
  rcases happly : applyTo t s.toState with e | ⟨d, _ | _ | _⟩
  · rw [happly] at h
    cases (Prod.mk.inj h).2
  · rw [happly] at h
    dsimp only at h
    split_ifs at h with howned
    · exact ⟨d, rfl, howned, (Prod.mk.inj h).1.symm⟩
    · cases (Prod.mk.inj h).2
  · rw [happly] at h
    cases (Prod.mk.inj h).2
  · rw [happly] at h
    cases (Prod.mk.inj h).2

/-- A transition which does not fail on other objects has new states for objects which the state
contains. -/
theorem owned_of_applyTo {d : DiffState} (h : t.applyTo s.toState = .ok (d, .exists')) :
    Owned s d := by
  obtain ⟨-, hmodify⟩ := Transition.applyTo_eq_ok_exists.mp h
  have hbase := t.keepsBase_modify s.toState _ d hmodify
  have hfire : fire t s.toState = some d.toState := by simp [fire, h]
  refine owned_iff.mpr fun id o ho => ?_
  have htype := (fire_eq_some_iff_step.mp hfire).objectType_eq id
  have hnew : d.toState.objectState id = some o := by
    show (d.newObjectStates.lookup id).or (d.baseState.objectState id) = some o
    rw [ho, Option.some_or]
  rw [hnew] at htype
  obtain ⟨old, hold, -⟩ := Option.map_eq_some_iff.mp htype.symm
  have hstate : (s.getStateOfObjectAt s.representative id).toOption = some old := hold
  rcases hget : s.getStateOfObjectAt s.representative id with e | o'
  · rw [hget] at hstate
    cases hstate
  · obtain ⟨v, n, hv, -, -⟩ := StateSequence.getStateOfObjectAt_eq_ok.mp hget
    exact (List.getElem?_eq_some_iff.mp hv).1

/-- A runner which is active sets up an object of the sequence, whatever it is. -/
theorem follow_of_setsUp {i : ObjId} {o : VisibleObjectState}
    (hactive : s.toState.Active t.executor) (hset : SetsUp t s.toState i o) (hi : i ≠ objidInvalid)
    (howned : i < s.visibleObjects.length) :
    follow s t = (StateSequence.pushStateSnapshot
      { s with visibleObjects := StateSequence.pushNewStates s.visibleObjects [⟨i, o⟩] },
      .ok .exists') := by
  have hadd : ((DiffState.ofState s.toState).addStateForObj i o >>= fun d' =>
      pure (Status.exists', d')) = .ok (.exists', (DiffState.ofState s.toState).insertState i o) :=
    bind_eq_ok.mpr ⟨_, DiffState.addStateForObj_eq_ok.mpr ⟨hi, rfl⟩, rfl⟩
  have hmodify : modify t (DiffState.ofState s.toState) =
      .ok (.exists', (DiffState.ofState s.toState).insertState i o) := by
    unfold modify
    cases hset with
    | conditionVariable hop | semaphore hop =>
      rw [hop]
      exact hadd
    | thread hop hobject =>
      rw [hop]
      dsimp only
      rw [DiffState.addStateForRunner, DiffState.toState_ofState, hobject]
      exact hadd
  have hnew : Owned s ((DiffState.ofState s.toState).insertState i o) := by
    intro id hid
    obtain rfl : id = i := by simpa [DiffState.insertState, DiffState.ofState] using hid
    exact howned
  rw [follow, applyTo_eq_ok_exists.mpr ⟨hactive, hmodify⟩]
  dsimp only
  rw [if_pos hnew]
  rfl

/-- **Following a transition** which does not fail on other objects does what it does there. -/
theorem follow_of_follow (hlength : s.visibleObjects.length ≤ objidInvalid) {st : Status}
    (h : s.follow t = (s', .ok st)) : follow s t = (s', .ok st) := by
  have hvalid : s.toState.objectState objidInvalid = none := by
    show (s.getStateOfObjectAt s.representative objidInvalid).toOption = none
    rw [StateSequence.getStateOfObjectAt, List.getElem?_eq_none hlength]
    rfl
  unfold StateSequence.follow at h
  unfold follow
  rcases happly : t.applyTo s.toState with e | ⟨d, _ | _ | _⟩
  · rw [happly] at h
    cases (Prod.mk.inj h).2
  · rw [happly] at h
    rw [applyTo_of_applyTo hvalid happly]
    dsimp only
    rw [if_pos (owned_of_applyTo happly)]
    exact h
  · rw [happly] at h
    rw [applyTo_of_applyTo hvalid happly]
    exact h
  · rw [happly] at h
    rw [applyTo_of_applyTo hvalid happly]
    exact h

/-- **Executing a runner** in the model which fails on other objects, without an exception, is
executing it here. -/
theorem executeRunner_run_of_run {source : ProcessSource} {p : RunnerId} {c c' : Coordinator}
    (h : (McMini.executeRunner source p).run c = (.ok (), c'))
    (hlength : c'.getStateSequence.visibleObjects.length ≤ objidInvalid) :
    (executeRunner source p).run c = (.ok (), c') := by
  rw [McMini.executeRunner, run_bind] at h
  rw [executeRunner, run_bind]
  rcases hprocess : (processExecute source p).run c with ⟨e | contents, c₁⟩
  · rw [hprocess] at h
    cases (Prod.mk.inj h).1
  · rw [hprocess] at h
    dsimp only at h ⊢
    rw [run_bind] at h ⊢
    rcases hcallback : (callback p contents).run c₁ with ⟨e | u, c₂⟩
    · rw [hcallback] at h
      cases (Prod.mk.inj h).1
    · rw [hcallback] at h
      dsimp only at h ⊢
      rw [run_bind, run_get] at h ⊢
      dsimp only at h ⊢
      rcases hmodel : c₂.currentProgramModel.modelExecutionOf p u with e | program
      · rw [hmodel] at h
        cases (Prod.mk.inj h).1
      · rw [hmodel] at h
        obtain ⟨hexec, next, s', hnext, hfollow, rfl⟩ := modelExecutionOf_eq_ok.mp hmodel
        obtain rfl := (Prod.mk.inj h).2
        have hobjects : c₂.currentProgramModel.stateSeq.visibleObjects.length ≤ objidInvalid := by
          obtain ⟨d, -, -, rfl⟩ := StateSequence.follow_eq_exists hfollow
          exact (StateSequence.pushNewStates_length _ _).symm.trans_le hlength
        have hsame := follow_of_follow hobjects hfollow
        rw [modelExecutionOf, modelExecutionBy_eq_ok.mpr ⟨hexec, next, s', hnext, hsame, rfl⟩]
        rfl

end Sequences

end McMini.Unchecked
