import McMini.Objects.ConditionVariable
import Mathlib.Data.List.AList

/-!
# States of the model

A state assigns to each visible object it contains its current state, and to each runner
the object which holds the runner's state. `State` is the content of the interface
`model::state`: what its virtual functions answer. The representations the source has for
it are

* `DiffState`, below: a base state together with the objects which a transition replaced;
* the elements of a state sequence, in `McMini/Model/StateSequence.lean`.

Objects are looked up at a type the caller names, by a cast the source does not check. A
lookup at the wrong type is undefined behavior, and a failure here.

A state is recorded for an object without a look at the object (`DiffState.addStateForObj`). The
transitions of `McMini/Model/Transition.lean` record the new states of objects which they find, of
the same types. There they fail on other objects (`DiffState.replaceStateForObj`), so that one which
succeeds has used its objects at their own types. What happens to other objects is the subject of
`McMini/Model/Unchecked.lean`.
-/

namespace McMini

/-- What an operation of the model raises instead of returning. -/
inductive Failure
  /-- `std::out_of_range`, thrown by a checked container lookup. -/
  | outOfRange
  /-- `std::runtime_error` with the given text. -/
  | runtimeError (what : String)
  /-- `undefined_behavior_exception`: the target does something undefined. -/
  | undefinedBehaviorException (what : String)
  /-- `process::termination_error`: a signal ends the process. -/
  | terminationError (signo : ℤ) (culprit : ℕ) (what : String)
  /-- `process::nonzero_exit_code_error`: the process exits abnormally. -/
  | nonzeroExitCodeError (exitCode : ℤ) (culprit : ℕ) (what : String)
  /-- The operation has no defined behavior here. -/
  | undefinedBehavior (what : String)
  deriving DecidableEq, Repr

/-- A computation succeeds when its first part does and the rest succeeds on the result. -/
theorem bind_eq_ok {ε α β : Type} {x : Except ε α} {f : α → Except ε β} {b : β} :
    x >>= f = .ok b ↔ ∃ a, x = .ok a ∧ f a = .ok b := by
  cases x <;> simp [bind, Except.bind]

/-- The state of a visible object (`visible_object_state` and its subclasses). -/
inductive VisibleObjectState
  | mutex (m : Mutex)
  | semaphore (s : Semaphore)
  | conditionVariable (cv : ConditionVariable)
  | thread (t : Thread)
  deriving DecidableEq

/-- The classes of visible objects. -/
inductive ObjectType
  | mutex | semaphore | conditionVariable | thread
  deriving DecidableEq, Repr

/-- The class a state belongs to. -/
def VisibleObjectState.objectType : VisibleObjectState → ObjectType
  | .mutex _ => .mutex
  | .semaphore _ => .semaphore
  | .conditionVariable _ => .conditionVariable
  | .thread _ => .thread

namespace VisibleObjectState

@[simp] theorem objectType_mutex (m : Mutex) : (mutex m).objectType = .mutex := rfl

@[simp] theorem objectType_semaphore (s : Semaphore) : (semaphore s).objectType = .semaphore := rfl

@[simp] theorem objectType_conditionVariable (cv : ConditionVariable) :
    (conditionVariable cv).objectType = .conditionVariable := rfl

@[simp] theorem objectType_thread (t : Thread) : (thread t).objectType = .thread := rfl

/-- A state of the class of mutexes is a mutex, and likewise below. -/
theorem objectType_eq_mutex {o : VisibleObjectState} :
    o.objectType = .mutex ↔ ∃ m, o = mutex m := by
  cases o <;> simp

theorem objectType_eq_semaphore {o : VisibleObjectState} :
    o.objectType = .semaphore ↔ ∃ s, o = semaphore s := by
  cases o <;> simp

theorem objectType_eq_conditionVariable {o : VisibleObjectState} :
    o.objectType = .conditionVariable ↔ ∃ cv, o = conditionVariable cv := by
  cases o <;> simp

theorem objectType_eq_thread {o : VisibleObjectState} :
    o.objectType = .thread ↔ ∃ t, o = thread t := by
  cases o <;> simp

end VisibleObjectState

/-- `invalid_objid`, the largest 32-bit value: no object. -/
def objidInvalid : ObjId := 4294967295

/-- A state of the program: its objects and its runners. The object of a runner belongs
to no other runner. -/
@[ext]
structure State where
  objectState : ObjId → Option VisibleObjectState
  objidForRunner : RunnerId → Option ObjId
  objidForRunner_injective : ∀ {p q : RunnerId} {i : ObjId},
    objidForRunner p = some i → objidForRunner q = some i → p = q

namespace State

variable {s : State} {i j : ObjId} {p q : RunnerId} {o : VisibleObjectState}

/-! ### Lookups -/

def containsObjectWithId (s : State) (i : ObjId) : Bool := (s.objectState i).isSome

def containsRunnerWithId (s : State) (p : RunnerId) : Bool := (s.objidForRunner p).isSome

def getStateOfObject (s : State) (i : ObjId) : Except Failure VisibleObjectState :=
  match s.objectState i with
  | some o => .ok o
  | none => .error .outOfRange

/-- `get_state_of_object<mutex>(id)`. -/
def mutexAt (s : State) (i : ObjId) : Except Failure Mutex :=
  match s.getStateOfObject i with
  | .ok (.mutex m) => .ok m
  | .ok _ => .error (.undefinedBehavior "static_cast<mutex>")
  | .error e => .error e

/-- `get_state_of_object<semaphore>(id)`. -/
def semaphoreAt (s : State) (i : ObjId) : Except Failure Semaphore :=
  match s.getStateOfObject i with
  | .ok (.semaphore sem) => .ok sem
  | .ok _ => .error (.undefinedBehavior "static_cast<semaphore>")
  | .error e => .error e

/-- `get_state_of_object<condition_variable>(id)`. -/
def conditionVariableAt (s : State) (i : ObjId) : Except Failure ConditionVariable :=
  match s.getStateOfObject i with
  | .ok (.conditionVariable cv) => .ok cv
  | .ok _ => .error (.undefinedBehavior "static_cast<condition_variable>")
  | .error e => .error e

/-- `get_state_of_runner<thread>(id)`. The object of an unknown runner is
`invalid_objid`, which no state contains. -/
def getStateOfRunner (s : State) (p : RunnerId) : Except Failure Thread :=
  match s.objidForRunner p with
  | none => .error .outOfRange
  | some i =>
    match s.getStateOfObject i with
    | .ok (.thread t) => .ok t
    | .ok _ => .error (.undefinedBehavior "static_cast<runner_state>")
    | .error e => .error e

theorem mutexAt_eq_ok {m : Mutex} :
    s.mutexAt i = .ok m ↔ s.objectState i = some (.mutex m) := by
  unfold mutexAt getStateOfObject
  rcases s.objectState i with _ | (_ | _ | _ | _) <;> simp

theorem semaphoreAt_eq_ok {sem : Semaphore} :
    s.semaphoreAt i = .ok sem ↔ s.objectState i = some (.semaphore sem) := by
  unfold semaphoreAt getStateOfObject
  rcases s.objectState i with _ | (_ | _ | _ | _) <;> simp

theorem conditionVariableAt_eq_ok {cv : ConditionVariable} :
    s.conditionVariableAt i = .ok cv ↔ s.objectState i = some (.conditionVariable cv) := by
  unfold conditionVariableAt getStateOfObject
  rcases s.objectState i with _ | (_ | _ | _ | _) <;> simp

/-- The thread `t` is the state of the runner `p`. -/
def HasThread (s : State) (p : RunnerId) (t : Thread) : Prop :=
  ∃ i, s.objidForRunner p = some i ∧ s.objectState i = some (.thread t)

theorem getStateOfRunner_eq_ok {t : Thread} :
    s.getStateOfRunner p = .ok t ↔ s.HasThread p t := by
  unfold getStateOfRunner HasThread
  cases hp : s.objidForRunner p with
  | none => simp
  | some i =>
    simp only [getStateOfObject, Option.some.injEq, exists_eq_left']
    rcases s.objectState i with _ | (_ | _ | _ | _) <;> simp

/-- A runner has at most one thread state. -/
theorem HasThread.unique {t t' : Thread} (h : s.HasThread p t) (h' : s.HasThread p t') :
    t = t' := by
  obtain ⟨i, hi, ht⟩ := h
  obtain ⟨j, hj, ht'⟩ := h'
  obtain rfl : i = j := by simpa [hi] using hj
  simpa [ht] using ht'

/-- The runner `p` is active: its thread is running. -/
def Active (s : State) (p : RunnerId) : Prop := s.HasThread p ⟨.running⟩

theorem active_iff : s.Active p ↔ ∃ t, s.HasThread p t ∧ t.isActive = true := by
  refine ⟨fun h => ⟨_, h, rfl⟩, ?_⟩
  rintro ⟨⟨c⟩, ht, hc⟩
  obtain rfl : c = .running := Thread.isActive_iff.mp hc
  exact ht

/-! ### Replacing the state of an object -/

/-- The state in which the object `i` has the state `o`. -/
def setObjectState (s : State) (i : ObjId) (o : VisibleObjectState) : State :=
  { s with objectState := Function.update s.objectState i (some o) }

@[simp]
theorem setObjectState_objidForRunner :
    (s.setObjectState i o).objidForRunner = s.objidForRunner := rfl

@[simp]
theorem setObjectState_self : (s.setObjectState i o).objectState i = some o :=
  Function.update_self ..

theorem setObjectState_of_ne (h : j ≠ i) :
    (s.setObjectState i o).objectState j = s.objectState j :=
  Function.update_of_ne h ..

theorem setObjectState_objectState :
    (s.setObjectState i o).objectState j = if j = i then some o else s.objectState j := by
  simp [setObjectState, Function.update_apply]

/-- The state with the given runners and other objects. The objects of the runners come
first, in order. -/
def ofRunnersAndObjects (threads : List Thread) (objects : List VisibleObjectState) : State where
  objectState i := (threads.map .thread ++ objects)[i]?
  objidForRunner p := if p < threads.length then some p else none
  objidForRunner_injective := by
    intro p q i hp hq
    split_ifs at hp hq
    exact (Option.some.inj hp).trans (Option.some.inj hq).symm

end State

/-! ### States which differ from a base -/

/-- A state given by its difference from a base state: the objects whose state was
replaced, with their new states. Transitions do not add runners, so the source's
`new_runners` stays empty and is left out. -/
structure DiffState where
  baseState : State
  newObjectStates : AList fun _ : ObjId => VisibleObjectState

namespace DiffState

variable {d d' : DiffState} {i : ObjId} {o : VisibleObjectState}

/-- `diff_state(const state &s)`: no difference from `s`. -/
def ofState (s : State) : DiffState := ⟨s, ∅⟩

/-- What the difference state answers when it is queried. -/
def toState (d : DiffState) : State :=
  { d.baseState with
    objectState := fun i => (d.newObjectStates.lookup i).or (d.baseState.objectState i) }

/-- Records `o` as the new state of the object `i`. -/
def insertState (d : DiffState) (i : ObjId) (o : VisibleObjectState) : DiffState :=
  { d with newObjectStates := d.newObjectStates.insert i o }

/-- The new state is kept in the difference, whatever the object is and whether there is one. -/
def addStateForObj (d : DiffState) (i : ObjId) (o : VisibleObjectState) :
    Except Failure DiffState :=
  if i = objidInvalid then
    .error (.runtimeError "Attempted to insert a state for an invalid object id")
  else .ok (d.insertState i o)

/-- An unknown runner has the object `invalid_objid`. -/
def addStateForRunner (d : DiffState) (p : RunnerId) (t : Thread) : Except Failure DiffState :=
  d.addStateForObj ((d.toState.objidForRunner p).getD objidInvalid) (.thread t)

/-- Replaces the state of the object `i`, which must have the type of the new state. -/
def replaceStateForObj (d : DiffState) (i : ObjId) (o : VisibleObjectState) :
    Except Failure DiffState :=
  match d.toState.getStateOfObject i with
  | .error _ => .error (.undefinedBehavior "add_state_for_obj: no such object")
  | .ok old =>
    if old.objectType = o.objectType then .ok (d.insertState i o)
    else .error (.undefinedBehavior "add_state_for_obj: type")

/-- Replaces the state of the runner `p`. -/
def replaceStateForRunner (d : DiffState) (p : RunnerId) (t : Thread) : Except Failure DiffState :=
  match d.toState.objidForRunner p with
  | none => .error (.runtimeError "Attempted to insert a state for an invalid object id")
  | some i => d.replaceStateForObj i (.thread t)

@[simp]
theorem toState_ofState (s : State) : (ofState s).toState = s := by
  ext : 1
  · funext i
    simp [toState, ofState]
  · rfl

theorem addStateForObj_eq_ok :
    d.addStateForObj i o = .ok d' ↔ i ≠ objidInvalid ∧ d' = d.insertState i o := by
  unfold addStateForObj
  split_ifs with hi
  · simp [hi]
  · simp [hi, eq_comm]

theorem replaceStateForObj_eq_ok :
    d.replaceStateForObj i o = .ok d' ↔
      (∃ old, d.toState.objectState i = some old ∧ old.objectType = o.objectType) ∧
        d' = d.insertState i o := by
  unfold replaceStateForObj State.getStateOfObject
  cases d.toState.objectState i with
  | none => simp
  | some old =>
    by_cases h : old.objectType = o.objectType
    · simp [h, eq_comm]
    · simp [h]

/-- What replacing a state means for the queries. -/
theorem toState_insertState :
    (d.insertState i o).toState = d.toState.setObjectState i o := by
  ext : 1
  · funext j
    by_cases h : j = i
    · subst h
      simp [toState, insertState]
    · simp [toState, insertState, State.setObjectState_of_ne h, AList.lookup_insert_ne h]
  · rfl

end DiffState

end McMini
