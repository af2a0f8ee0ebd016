import McMini.Model.SharedPolicies
import McMini.Model.Transition

/-!
# Transitions on stored states

The states and transitions of `McMini/Model/State.lean` and `McMini/Model/Transition.lean` once
more, now as they are in memory: a condition variable is stored with a pointer to its policy, and
a transition which is applied to a state, or only checked for being enabled in it, runs over the
policies of all condition variables of the process. `Stored.applyTo_implements` says that this
makes no difference: applying a transition allocates policies, changes none which was there, and
ends as it does on states whose condition variables have policies of their own.
-/

namespace McMini

open Foundation

/-- The state of a visible object as it is stored. -/
inductive StoredObjectState
  | mutex (m : Mutex)
  | semaphore (s : Semaphore)
  | conditionVariable (cv : StoredConditionVariable)
  | thread (t : Thread)
  deriving DecidableEq

/-- The class a stored state belongs to. -/
def StoredObjectState.objectType : StoredObjectState → ObjectType
  | .mutex _ => .mutex
  | .semaphore _ => .semaphore
  | .conditionVariable _ => .conditionVariable
  | .thread _ => .thread

/-- A state of the program as it is stored. -/
structure StoredState where
  objectState : ObjId → Option StoredObjectState
  objidForRunner : RunnerId → Option ObjId

namespace StoredState

def getStateOfObject (s : StoredState) (i : ObjId) : Except Failure StoredObjectState :=
  match s.objectState i with
  | some o => .ok o
  | none => .error .outOfRange

/-- `get_state_of_object<mutex>(id)`. -/
def mutexAt (s : StoredState) (i : ObjId) : Except Failure Mutex :=
  match s.getStateOfObject i with
  | .ok (.mutex m) => .ok m
  | .ok _ => .error (.undefinedBehavior "static_cast<mutex>")
  | .error e => .error e

/-- `get_state_of_object<semaphore>(id)`. -/
def semaphoreAt (s : StoredState) (i : ObjId) : Except Failure Semaphore :=
  match s.getStateOfObject i with
  | .ok (.semaphore sem) => .ok sem
  | .ok _ => .error (.undefinedBehavior "static_cast<semaphore>")
  | .error e => .error e

/-- `get_state_of_object<condition_variable>(id)`. -/
def conditionVariableAt (s : StoredState) (i : ObjId) :
    Except Failure StoredConditionVariable :=
  match s.getStateOfObject i with
  | .ok (.conditionVariable cv) => .ok cv
  | .ok _ => .error (.undefinedBehavior "static_cast<condition_variable>")
  | .error e => .error e

/-- `get_state_of_runner<thread>(id)`. -/
def getStateOfRunner (s : StoredState) (p : RunnerId) : Except Failure Thread :=
  match s.objidForRunner p with
  | none => .error .outOfRange
  | some i =>
    match s.getStateOfObject i with
    | .ok (.thread t) => .ok t
    | .ok _ => .error (.undefinedBehavior "static_cast<runner_state>")
    | .error e => .error e

end StoredState

/-- A difference from a stored state. -/
structure StoredDiffState where
  baseState : StoredState
  newObjectStates : AList fun _ : ObjId => StoredObjectState

namespace StoredDiffState

/-- `diff_state(const state &s)`: no difference from `s`. -/
def ofState (s : StoredState) : StoredDiffState := ⟨s, ∅⟩

/-- What the difference state answers when it is queried. -/
def toState (d : StoredDiffState) : StoredState :=
  { d.baseState with
    objectState := fun i => (d.newObjectStates.lookup i).or (d.baseState.objectState i) }

/-- Replaces the state of the object `i`, which must have the type of the new state. -/
def replaceStateForObj (d : StoredDiffState) (i : ObjId) (o : StoredObjectState) :
    Except Failure StoredDiffState :=
  match d.toState.getStateOfObject i with
  | .error _ => .error (.undefinedBehavior "add_state_for_obj: no such object")
  | .ok old =>
    if old.objectType = o.objectType then
      .ok { d with newObjectStates := d.newObjectStates.insert i o }
    else .error (.undefinedBehavior "add_state_for_obj: type")

/-- Replaces the state of the runner `p`. -/
def replaceStateForRunner (d : StoredDiffState) (p : RunnerId) (t : Thread) :
    Except Failure StoredDiffState :=
  match d.toState.objidForRunner p with
  | none => .error (.runtimeError "Attempted to insert a state for an invalid object id")
  | some i => d.replaceStateForObj i (.thread t)

end StoredDiffState

/-! ### The transitions -/

namespace Stored

/-- What `modify` leaves behind. -/
abbrev Outcome := PolicyM (Status × StoredDiffState)

def MutexInit.modify (mutexId : ObjId) (s : StoredDiffState) : Outcome := do
  let ms ← s.toState.mutexAt mutexId
  let s ← s.replaceStateForObj mutexId (.mutex { currentState := .unlocked, location := ms.location })
  return (.exists', s)

def MutexLock.modify (executor : RunnerId) (mutexId : ObjId) (s : StoredDiffState) :
    Outcome := do
  let ms ← s.toState.mutexAt mutexId
  if ms.isLocked then return (.disabled, s)
  let s ← s.replaceStateForObj mutexId (.mutex ⟨.locked, ms.location, executor⟩)
  return (.exists', s)

def MutexUnlock.modify (executor : RunnerId) (mutexId : ObjId) (s : StoredDiffState) :
    Outcome := do
  let ms ← s.toState.mutexAt mutexId
  if !ms.isLockedBy executor then return (.disabled, s)
  let s ← s.replaceStateForObj mutexId (.mutex { currentState := .unlocked, location := ms.location })
  return (.exists', s)

def ConditionVariableInit.modify (condId : ObjId) (s : StoredDiffState) : Outcome := do
  let newCv ← StoredConditionVariable.construct .initialized
  let s ← s.replaceStateForObj condId (.conditionVariable newCv)
  return (.exists', s)

def ConditionVariableEnqueueThread.modify (executor : RunnerId) (condId mutexId : ObjId)
    (s : StoredDiffState) : Outcome := do
  let cv ← s.toState.conditionVariableAt condId
  let m ← s.toState.mutexAt mutexId
  if m.isUnlocked then return (.disabled, s)
  if !m.isLockedBy executor then return (.disabled, s)
  let newCv ← cv.enqueueThread executor m.location
  let s ← s.replaceStateForObj condId (.conditionVariable newCv)
  let s ← s.replaceStateForObj mutexId (.mutex { currentState := .unlocked, location := m.location })
  return (.exists', s)

def ConditionVariableWait.modify (executor : RunnerId) (condId mutexId : ObjId)
    (s : StoredDiffState) : Outcome := do
  let cv ← s.toState.conditionVariableAt condId
  let m ← s.toState.mutexAt mutexId
  if cv.isUninitialized || cv.isDestroyed then return (.undefined, s)
  if m.isLockedBy executor then return (.disabled, s)
  let canExit ← cv.waiterCanExit executor
  if !(canExit && m.location == cv.associatedMutex && m.isUnlocked) then
    return (.disabled, s)
  let s ← s.replaceStateForObj mutexId (.mutex ⟨.locked, m.location, executor⟩)
  let newCv ← cv.wait executor m.location
  let s ← s.replaceStateForObj condId (.conditionVariable newCv)
  return (.exists', s)

/-- The second condition variable built by a signal is only asked for lost wake-ups. -/
def ConditionVariableSignal.modify (condId : ObjId) (s : StoredDiffState) : Outcome := do
  let cv ← s.toState.conditionVariableAt condId
  if cv.isUninitialized then return (.undefined, s)
  if cv.isDestroyed then return (.undefined, s)
  let hasWaiters ← cv.hasWaiters
  if !hasWaiters then return (.exists', s)
  let newCv ← cv.signal
  let s ← s.replaceStateForObj condId (.conditionVariable newCv)
  let _ ← StoredConditionVariable.construct newCv.currentState ridInvalid 0 newCv.waitingCount
  return (.exists', s)

def ConditionVariableBroadcast.modify (executor : RunnerId) (condId : ObjId)
    (s : StoredDiffState) : Outcome := do
  let cv ← s.toState.conditionVariableAt condId
  if cv.isUninitialized then return (.undefined, s)
  if cv.isDestroyed then return (.undefined, s)
  let hasWaiters ← cv.hasWaiters
  if !hasWaiters then return (.exists', s)
  let newCv ← cv.broadcast executor
  let s ← s.replaceStateForObj condId (.conditionVariable newCv)
  return (.exists', s)

def ConditionVariableDestroy.modify (executor : RunnerId) (condId : ObjId)
    (s : StoredDiffState) : Outcome := do
  let cv ← s.toState.conditionVariableAt condId
  if cv.isUninitialized then return (.undefined, s)
  if cv.isDestroyed then return (.undefined, s)
  let hasWaiters ← cv.hasWaiters
  if hasWaiters then return (.undefined, s)
  let newCv ← StoredConditionVariable.construct .destroyed executor
  let s ← s.replaceStateForObj condId (.conditionVariable newCv)
  return (.exists', s)

def SemInit.modify (semId : ObjId) (count : BitVec 32) (s : StoredDiffState) : Outcome := do
  let s ← s.replaceStateForObj semId (.semaphore (.ofCount count))
  return (.exists', s)

def SemPost.modify (semId : ObjId) (s : StoredDiffState) : Outcome := do
  let sem ← s.toState.semaphoreAt semId
  let s ← s.replaceStateForObj semId (.semaphore (.ofCount (sem.count + 1)))
  return (.exists', s)

def SemWait.modify (semId : ObjId) (s : StoredDiffState) : Outcome := do
  let sem ← s.toState.semaphoreAt semId
  if sem.willBlock then return (.disabled, s)
  let s ← s.replaceStateForObj semId (.semaphore (.ofCount (sem.count - 1)))
  return (.exists', s)

def ThreadCreate.modify (target : RunnerId) (s : StoredDiffState) : Outcome := do
  let s ← s.replaceStateForRunner target ⟨.running⟩
  return (.exists', s)

def ThreadStart.modify (executor : RunnerId) (s : StoredDiffState) : Outcome := do
  let threadState ← s.toState.getStateOfRunner executor
  return (if threadState.isEmbryo then .disabled else .exists', s)

def ThreadJoin.modify (target : RunnerId) (s : StoredDiffState) : Outcome := do
  let targetState ← s.toState.getStateOfRunner target
  return (if targetState.hasExited then .exists' else .disabled, s)

def ThreadExit.modify (executor : RunnerId) (s : StoredDiffState) : Outcome := do
  let threadState ← s.toState.getStateOfRunner executor
  if !threadState.isRunning || executor == ridMainThread then return (.disabled, s)
  let s ← s.replaceStateForRunner executor ⟨.exited⟩
  return (.exists', s)

def ProcessExit.modify (executor : RunnerId) (s : StoredDiffState) : Outcome := do
  let s ← s.replaceStateForRunner executor ⟨.exited⟩
  return (.exists', s)

def ProcessAbort.modify (s : StoredDiffState) : Outcome := return (.exists', s)

/-- The virtual method `modify`. -/
def modify (t : Transition) (s : StoredDiffState) : Outcome :=
  match t.op with
  | .mutexInit m => MutexInit.modify m s
  | .mutexLock m => MutexLock.modify t.executor m s
  | .mutexUnlock m => MutexUnlock.modify t.executor m s
  | .conditionVariableInit c => ConditionVariableInit.modify c s
  | .conditionVariableEnqueueThread c m => ConditionVariableEnqueueThread.modify t.executor c m s
  | .conditionVariableWait c m => ConditionVariableWait.modify t.executor c m s
  | .conditionVariableSignal c => ConditionVariableSignal.modify c s
  | .conditionVariableBroadcast c => ConditionVariableBroadcast.modify t.executor c s
  | .conditionVariableDestroy c => ConditionVariableDestroy.modify t.executor c s
  | .semInit i n => SemInit.modify i n s
  | .semPost i => SemPost.modify i s
  | .semWait i => SemWait.modify i s
  | .threadCreate target => ThreadCreate.modify target s
  | .threadStart => ThreadStart.modify t.executor s
  | .threadJoin target => ThreadJoin.modify target s
  | .threadExit => ThreadExit.modify t.executor s
  | .processExit _ => ProcessExit.modify t.executor s
  | .processAbort => ProcessAbort.modify s

/-- Applies the transition to a state. -/
def applyTo (t : Transition) (s : StoredState) : PolicyM (StoredDiffState × Status) := do
  let executorState ← s.getStateOfRunner t.executor
  if !executorState.isActive then return (StoredDiffState.ofState s, .disabled)
  let (status, s') ← modify t (StoredDiffState.ofState s)
  if status = .exists' then return (s', .exists')
  return (StoredDiffState.ofState s, .disabled)

def isEnabledIn (t : Transition) (s : StoredState) : PolicyM Bool := do
  let (_, status) ← applyTo t s
  return status == .exists'

end Stored

/-! ### What stored states are -/

variable {cells cells' : PolicyMemory}

/-- Following the pointer of a stored condition variable gives the state. -/
inductive StoredObjectState.Reads (cells : PolicyMemory) :
    StoredObjectState → VisibleObjectState → Prop
  | mutex (m : Mutex) : Reads cells (.mutex m) (.mutex m)
  | semaphore (s : Semaphore) : Reads cells (.semaphore s) (.semaphore s)
  | conditionVariable {cv : StoredConditionVariable} {v : ConditionVariable}
      (h : cv.Reads cells v) : Reads cells (.conditionVariable cv) (.conditionVariable v)
  | thread (t : Thread) : Reads cells (.thread t) (.thread t)

namespace StoredObjectState.Reads

variable {o : StoredObjectState} {v v' : VisibleObjectState}

theorem mono (h : o.Reads cells v) (hcells : cells <+: cells') : o.Reads cells' v := by
  cases h with
  | mutex m => exact .mutex m
  | semaphore s => exact .semaphore s
  | conditionVariable h => exact .conditionVariable (h.mono hcells)
  | thread t => exact .thread t

theorem objectType_eq (h : o.Reads cells v) : o.objectType = v.objectType := by
  cases h <;> rfl

/-- A stored state is only one state. -/
theorem unique (h : o.Reads cells v) (h' : o.Reads cells v') : v = v' := by
  cases h with
  | conditionVariable h =>
    cases h' with
    | conditionVariable h' => rw [← h.load, ← h'.load]
  | mutex m | semaphore s | thread t => cases h'; rfl

end StoredObjectState.Reads

namespace StoredState

/-- The stored state is the state `u`. -/
structure Reads (cells : PolicyMemory) (s : StoredState) (u : State) : Prop where
  objectState : ∀ i, Option.Rel (StoredObjectState.Reads cells) (s.objectState i) (u.objectState i)
  objidForRunner : s.objidForRunner = u.objidForRunner

variable {s : StoredState} {u : State} {i : ObjId} {p : RunnerId}

theorem Reads.mono (h : s.Reads cells u) (hcells : cells <+: cells') : s.Reads cells' u := by
  refine ⟨fun i => ?_, h.objidForRunner⟩
  have hi := h.objectState i
  generalize s.objectState i = o at hi ⊢
  generalize u.objectState i = v at hi ⊢
  cases hi with
  | some ho => exact .some (ho.mono hcells)
  | none => exact .none

theorem Reads.getStateOfObject (h : s.Reads cells u) (i : ObjId) :
    Agree (StoredObjectState.Reads cells) (s.getStateOfObject i) (u.getStateOfObject i) := by
  have hi := h.objectState i
  unfold StoredState.getStateOfObject State.getStateOfObject
  generalize s.objectState i = o at hi ⊢
  generalize u.objectState i = v at hi ⊢
  cases hi with
  | some ho => exact .ok ho
  | none => exact .error _

theorem Reads.mutexAt (h : s.Reads cells u) (i : ObjId) :
    Agree (· = ·) (s.mutexAt i) (u.mutexAt i) := by
  have hi := h.getStateOfObject i
  unfold StoredState.mutexAt State.mutexAt
  generalize s.getStateOfObject i = o at hi ⊢
  generalize u.getStateOfObject i = v at hi ⊢
  cases hi with
  | error e => exact .error e
  | ok ho =>
    cases ho with
    | mutex m => exact .ok rfl
    | semaphore s | conditionVariable h | thread t => exact .error _

theorem Reads.semaphoreAt (h : s.Reads cells u) (i : ObjId) :
    Agree (· = ·) (s.semaphoreAt i) (u.semaphoreAt i) := by
  have hi := h.getStateOfObject i
  unfold StoredState.semaphoreAt State.semaphoreAt
  generalize s.getStateOfObject i = o at hi ⊢
  generalize u.getStateOfObject i = v at hi ⊢
  cases hi with
  | error e => exact .error e
  | ok ho =>
    cases ho with
    | semaphore s => exact .ok rfl
    | mutex m | conditionVariable h | thread t => exact .error _

theorem Reads.conditionVariableAt (h : s.Reads cells u) (i : ObjId) :
    Agree (StoredConditionVariable.Reads cells) (s.conditionVariableAt i)
      (u.conditionVariableAt i) := by
  have hi := h.getStateOfObject i
  unfold StoredState.conditionVariableAt State.conditionVariableAt
  generalize s.getStateOfObject i = o at hi ⊢
  generalize u.getStateOfObject i = v at hi ⊢
  cases hi with
  | error e => exact .error e
  | ok ho =>
    cases ho with
    | conditionVariable h => exact .ok h
    | mutex m | semaphore s | thread t => exact .error _

theorem Reads.getStateOfRunner (h : s.Reads cells u) (p : RunnerId) :
    Agree (· = ·) (s.getStateOfRunner p) (u.getStateOfRunner p) := by
  unfold StoredState.getStateOfRunner State.getStateOfRunner
  rw [h.objidForRunner]
  cases u.objidForRunner p with
  | none => exact .error _
  | some i =>
    have hi := h.getStateOfObject i
    dsimp only
    generalize s.getStateOfObject i = o at hi ⊢
    generalize u.getStateOfObject i = v at hi ⊢
    cases hi with
    | error e => exact .error e
    | ok ho =>
      cases ho with
      | thread t => exact .ok rfl
      | mutex m | semaphore s | conditionVariable h => exact .error _

end StoredState

namespace StoredDiffState

/-- New states of the same object. -/
def EntryReads (cells : PolicyMemory) (x : Sigma fun _ : ObjId => StoredObjectState)
    (y : Sigma fun _ : ObjId => VisibleObjectState) : Prop :=
  x.1 = y.1 ∧ x.2.Reads cells y.2

/-- The stored difference is the difference `d'`. -/
structure Reads (cells : PolicyMemory) (d : StoredDiffState) (d' : DiffState) : Prop where
  baseState : d.baseState.Reads cells d'.baseState
  newObjectStates :
    List.Forall₂ (EntryReads cells) d.newObjectStates.entries d'.newObjectStates.entries

variable {d : StoredDiffState} {d' : DiffState} {o : StoredObjectState} {v : VisibleObjectState}

/-- Looking up the new state of an object. -/
theorem rel_dlookup {l : List (Sigma fun _ : ObjId => StoredObjectState)}
    {l' : List (Sigma fun _ : ObjId => VisibleObjectState)}
    (h : List.Forall₂ (EntryReads cells) l l') (i : ObjId) :
    Option.Rel (StoredObjectState.Reads cells) (l.dlookup i) (l'.dlookup i) := by
  induction h with
  | nil => exact .none
  | @cons x y l l' hxy _ ih =>
    obtain ⟨j, o⟩ := x
    obtain ⟨j', v⟩ := y
    obtain ⟨rfl, ho⟩ := hxy
    by_cases hj : i = j
    · subst hj
      rw [List.dlookup_cons_eq, List.dlookup_cons_eq]
      exact .some ho
    · rw [List.dlookup_cons_ne _ _ hj, List.dlookup_cons_ne _ _ hj]
      exact ih

/-- Dropping the new state of an object. -/
theorem forall₂_kerase {l : List (Sigma fun _ : ObjId => StoredObjectState)}
    {l' : List (Sigma fun _ : ObjId => VisibleObjectState)}
    (h : List.Forall₂ (EntryReads cells) l l') (i : ObjId) :
    List.Forall₂ (EntryReads cells) (l.kerase i) (l'.kerase i) := by
  induction h with
  | nil => exact .nil
  | @cons x y l l' hxy hrest ih =>
    have hkey := hxy.1
    by_cases hi : i = x.1
    · rw [List.kerase_cons_eq hi, List.kerase_cons_eq (hi.trans hkey)]
      exact hrest
    · rw [List.kerase_cons_ne hi, List.kerase_cons_ne (hkey ▸ hi)]
      exact .cons hxy ih

theorem reads_ofState {s : StoredState} {u : State} (h : s.Reads cells u) :
    (ofState s).Reads cells (.ofState u) := ⟨h, .nil⟩

theorem Reads.mono (h : d.Reads cells d') (hcells : cells <+: cells') : d.Reads cells' d' :=
  ⟨h.baseState.mono hcells,
    h.newObjectStates.imp fun _ _ hxy => ⟨hxy.1, hxy.2.mono hcells⟩⟩

theorem Reads.toState (h : d.Reads cells d') : d.toState.Reads cells d'.toState := by
  refine ⟨fun i => ?_, h.baseState.objidForRunner⟩
  have hi : Option.Rel _ (d.newObjectStates.lookup i) (d'.newObjectStates.lookup i) :=
    rel_dlookup h.newObjectStates i
  simp only [StoredDiffState.toState, DiffState.toState]
  generalize d.newObjectStates.lookup i = o at hi ⊢
  generalize d'.newObjectStates.lookup i = v at hi ⊢
  cases hi with
  | some ho => exact .some ho
  | none => exact h.baseState.objectState i

theorem Reads.replaceStateForObj (h : d.Reads cells d') (i : ObjId) (ho : o.Reads cells v) :
    Agree (Reads cells) (d.replaceStateForObj i o) (d'.replaceStateForObj i v) := by
  have hi := h.toState.getStateOfObject i
  unfold StoredDiffState.replaceStateForObj DiffState.replaceStateForObj
  generalize d.toState.getStateOfObject i = old at hi ⊢
  generalize d'.toState.getStateOfObject i = old' at hi ⊢
  cases hi with
  | error e => exact .error _
  | ok hold =>
    simp only [hold.objectType_eq, ho.objectType_eq]
    split_ifs with htype
    · refine .ok ⟨h.baseState, ?_⟩
      show List.Forall₂ _ (d.newObjectStates.insert i o).entries
        (d'.newObjectStates.insert i v).entries
      rw [AList.entries_insert, AList.entries_insert]
      exact .cons ⟨rfl, ho⟩ (forall₂_kerase h.newObjectStates i)
    · exact .error _

theorem Reads.replaceStateForRunner (h : d.Reads cells d') (p : RunnerId) (t : Thread) :
    Agree (Reads cells) (d.replaceStateForRunner p t) (d'.replaceStateForRunner p t) := by
  unfold StoredDiffState.replaceStateForRunner DiffState.replaceStateForRunner
  rw [h.toState.objidForRunner]
  cases d'.toState.objidForRunner p with
  | none => exact .error _
  | some i => exact h.replaceStateForObj i (.thread t)

end StoredDiffState

/-! ### Applying a transition -/

namespace Stored

/-- The same status, and a stored difference which is the other. -/
def Matches (cells : PolicyMemory) (r : Status × StoredDiffState) (r' : Status × DiffState) :
    Prop :=
  r.1 = r'.1 ∧ r.2.Reads cells r'.2

/-- `modify` on a stored difference ends as it does on the difference. -/
abbrev Realizes (cells : PolicyMemory) (x : Outcome) (y : Except Failure (Status × DiffState)) :
    Prop :=
  Implements Matches cells x y

variable {d : StoredDiffState} {d' : DiffState} {s : StoredState} {u : State}

open StoredConditionVariable

theorem implements_status (h : d.Reads cells d') (st : Status) :
    Realizes cells (pure (st, d)) (pure (st, d')) := implements_pure ⟨rfl, h⟩

/-- Replacing the state of an object, as the last step. -/
theorem implements_replace (h : d.Reads cells d') (i : ObjId) {o : StoredObjectState}
    {v : VisibleObjectState} (ho : o.Reads cells v) :
    Realizes cells
      (do let d ← d.replaceStateForObj i o
          pure (.exists', d))
      (do let d' ← d'.replaceStateForObj i v
          pure (.exists', d')) :=
  implements_bind_liftM (h.replaceStateForObj i ho) fun _ _ hd => implements_status hd _

theorem implements_replaceRunner (h : d.Reads cells d') (p : RunnerId) (t : Thread) :
    Realizes cells
      (do let d ← d.replaceStateForRunner p t
          pure (.exists', d))
      (do let d' ← d'.replaceStateForRunner p t
          pure (.exists', d')) :=
  implements_bind_liftM (h.replaceStateForRunner p t) fun _ _ hd => implements_status hd _

/-- Replacing the state of a condition variable by one which is computed over the policies. -/
theorem implements_store (h : d.Reads cells d') (c : ObjId) {x : PolicyM StoredConditionVariable}
    {v : ConditionVariable} (hx : Implements Reads cells x (pure v)) :
    Realizes cells
      (do let newCv ← x
          let d ← d.replaceStateForObj c (.conditionVariable newCv)
          pure (.exists', d))
      (do let d' ← d'.replaceStateForObj c (.conditionVariable v)
          pure (.exists', d')) :=
  implements_bind_pure hx fun _ _ hcells hcv =>
    implements_replace (h.mono hcells) c (.conditionVariable hcv)

/-- How a signal, a broadcast and the destruction of a condition variable begin. -/
theorem implements_examined (h : d.Reads cells d') {cv : StoredConditionVariable}
    {v : ConditionVariable} (hcv : cv.Reads cells v) {f : Bool → Outcome}
    {g : Bool → Except Failure (Status × DiffState)}
    (hrest : ∀ b, Realizes cells (f b) (g b)) :
    Realizes cells
      (if cv.isUninitialized then pure (.undefined, d)
        else if cv.isDestroyed then pure (.undefined, d) else cv.hasWaiters >>= f)
      (if v.isUninitialized then pure (.undefined, d')
        else if v.isDestroyed then pure (.undefined, d') else g v.hasWaiters) := by
  have hstate : v.currentState = cv.currentState := by
    rw [← hcv.load]
    rfl
  simp only [ConditionVariable.isUninitialized, ConditionVariable.isDestroyed, hstate]
  refine implements_ite (implements_status h _) (implements_ite (implements_status h _) ?_)
  exact implements_bind_of_run (run_hasWaiters hcv) (hrest v.hasWaiters)

theorem modify_implements (t : Transition) (h : d.Reads cells d') :
    Realizes cells (modify t d) (t.modify d') := by
  obtain ⟨p, op⟩ := t
  cases op with
  | mutexInit m =>
    exact implements_bind_liftM_eq (h.toState.mutexAt m) fun ms =>
      implements_replace h m (.mutex _)
  | mutexLock m =>
    exact implements_bind_liftM_eq (h.toState.mutexAt m) fun ms =>
      implements_ite (implements_status h _) (implements_replace h m (.mutex _))
  | mutexUnlock m =>
    exact implements_bind_liftM_eq (h.toState.mutexAt m) fun ms =>
      implements_ite (implements_status h _) (implements_replace h m (.mutex _))
  | semInit i n => exact implements_replace h i (.semaphore _)
  | semPost i =>
    exact implements_bind_liftM_eq (h.toState.semaphoreAt i) fun sem =>
      implements_replace h i (.semaphore _)
  | semWait i =>
    exact implements_bind_liftM_eq (h.toState.semaphoreAt i) fun sem =>
      implements_ite (implements_status h _) (implements_replace h i (.semaphore _))
  | threadCreate target => exact implements_replaceRunner h target _
  | threadStart =>
    exact implements_bind_liftM_eq (h.toState.getStateOfRunner p) fun th =>
      implements_status h _
  | threadJoin target =>
    exact implements_bind_liftM_eq (h.toState.getStateOfRunner target) fun th =>
      implements_status h _
  | threadExit =>
    exact implements_bind_liftM_eq (h.toState.getStateOfRunner p) fun th =>
      implements_ite (implements_status h _) (implements_replaceRunner h p _)
  | processExit n => exact implements_replaceRunner h p _
  | processAbort => exact implements_status h _
  | conditionVariableInit c => exact implements_store h c implements_construct
  | conditionVariableEnqueueThread c m =>
    refine implements_bind_liftM (h.toState.conditionVariableAt c) fun cv v hcv =>
      implements_bind_liftM_eq (h.toState.mutexAt m) fun mu =>
        implements_ite (implements_status h _) (implements_ite (implements_status h _) ?_)
    refine implements_bind_pure (implements_enqueueThread hcv) fun cells' newCv hcells hnew => ?_
    -- the new policy is a cell of its own, so what has been read before is still there
    exact implements_bind_liftM ((h.mono hcells).replaceStateForObj c (.conditionVariable hnew))
      fun _ _ hd => implements_replace hd m (.mutex _)
  | conditionVariableWait c m =>
    refine implements_bind_liftM (h.toState.conditionVariableAt c) fun cv v hcv =>
      implements_bind_liftM_eq (h.toState.mutexAt m) fun mu => ?_
    have hstate : v.currentState = cv.currentState := by
      rw [← hcv.load]
      rfl
    have hmutex : v.associatedMutex = cv.associatedMutex := by
      rw [← hcv.load]
      rfl
    simp only [ConditionVariable.isUninitialized, ConditionVariable.isDestroyed, hstate, hmutex]
    refine implements_ite (implements_status h _) (implements_ite (implements_status h _) ?_)
    -- the policies are asked in place, and answer what they stand for
    refine implements_bind_of_run (run_waiterCanExit hcv) ?_
    refine implements_ite (implements_status h _) ?_
    refine implements_bind_liftM (h.replaceStateForObj m (.mutex _)) fun d d' hd => ?_
    have hwait : Implements Reads cells (cv.wait p mu.location) _ := implements_wait hcv
    have hdone := implements_bind hwait fun cells' newCv newV hcells hnew =>
      implements_replace (hd.mono hcells) c (.conditionVariable hnew)
    -- the wait throws if and only if it does in the model
    cases hv : v.wait p mu.location <;> rw [hv] at hdone <;> exact hdone
  | conditionVariableSignal c =>
    refine implements_bind_liftM (h.toState.conditionVariableAt c) fun cv v hcv => ?_
    refine implements_examined h hcv fun b => implements_ite (implements_status h _) ?_
    refine implements_bind_pure (implements_signal hcv) fun cells' newCv hcells hnew => ?_
    refine implements_bind_liftM ((h.mono hcells).replaceStateForObj c (.conditionVariable hnew))
      fun d d' hd => ?_
    exact implements_bind_pure implements_construct fun cells'' _ hcells' _ =>
      implements_status (hd.mono hcells') _
  | conditionVariableBroadcast c =>
    refine implements_bind_liftM (h.toState.conditionVariableAt c) fun cv v hcv => ?_
    refine implements_examined h hcv fun b => implements_ite (implements_status h _) ?_
    exact implements_store h c (implements_broadcast hcv)
  | conditionVariableDestroy c =>
    refine implements_bind_liftM (h.toState.conditionVariableAt c) fun cv v hcv => ?_
    -- a destroyed condition variable gets a policy of its own
    exact implements_examined h hcv fun b => implements_ite (implements_status h _)
      (implements_store h c implements_construct)
/-- The relation between what applying a transition answers. -/
def MatchesApplied (cells : PolicyMemory) (r : StoredDiffState × Status) (r' : DiffState × Status) :
    Prop :=
  r.1.Reads cells r'.1 ∧ r.2 = r'.2

/-- **Applying a transition to a stored state** changes no policy which was there, and ends as it
does on the state. -/
theorem applyTo_implements (t : Transition) (h : s.Reads cells u) :
    Implements MatchesApplied cells (applyTo t s) (t.applyTo u) := by
  have hbase := StoredDiffState.reads_ofState h
  refine implements_bind_liftM_eq (h.getStateOfRunner t.executor) fun th =>
    implements_ite (implements_pure ⟨hbase, rfl⟩) ?_
  refine implements_bind (modify_implements t hbase) fun cells' r r' hcells hr => ?_
  obtain ⟨st, d⟩ := r
  obtain ⟨st', d'⟩ := r'
  obtain ⟨rfl, hd⟩ := hr
  exact implements_ite (implements_pure ⟨hd, rfl⟩)
    (implements_pure ⟨hbase.mono hcells, rfl⟩)

/-- A check for being enabled changes no policy which was there. -/
theorem isEnabledIn_implements (t : Transition) (h : s.Reads cells u) :
    Implements (fun _ b b' => b = b') cells (isEnabledIn t s) (t.isEnabledIn u) := by
  refine implements_bind (applyTo_implements t h) fun cells' r r' hcells hr => ?_
  obtain ⟨d, st⟩ := r
  obtain ⟨d', st'⟩ := r'
  obtain ⟨-, rfl⟩ := hr
  exact implements_pure rfl

end Stored

end McMini
