import McMini.Model.State

/-!
# Transitions

A transition is one visible operation of one runner, its executor. Every operation is a
class of the source with a method `modify`, which reads the state, decides whether the
transition *exists* there and replaces the states of the objects it changes; here each
is the function `modify` in the namespace named after the class.

`Transition.applyTo` adds what all of them share: the executor must be active, and the
changes are kept only when the transition exists. `fire` is the resulting partial
function on states: it is defined exactly when the transition is enabled.
-/

namespace McMini

/-- The outcome of `modify` (`transition::status`). -/
inductive Status
  | exists' | disabled | undefined
  deriving DecidableEq, Repr

/-- The classes of transitions with their operands. -/
inductive Operation
  | mutexInit (mutexId : ObjId)
  | mutexLock (mutexId : ObjId)
  | mutexUnlock (mutexId : ObjId)
  | conditionVariableInit (condId : ObjId)
  | conditionVariableEnqueueThread (condId mutexId : ObjId)
  | conditionVariableWait (condId mutexId : ObjId)
  | conditionVariableSignal (condId : ObjId)
  | conditionVariableBroadcast (condId : ObjId)
  | conditionVariableDestroy (condId : ObjId)
  | semInit (semId : ObjId) (count : BitVec 32)
  | semPost (semId : ObjId)
  | semWait (semId : ObjId)
  | threadCreate (target : RunnerId)
  | threadStart
  | threadJoin (target : RunnerId)
  | threadExit
  | processExit (exitCode : ℤ)
  | processAbort
  deriving DecidableEq, Repr

/-- A transition: an operation and the runner which executes it. -/
structure Transition where
  executor : RunnerId
  op : Operation
  deriving DecidableEq, Repr

/-! ### Mutexes -/

/-- The location is kept from the object which is there already. -/
def MutexInit.modify (mutexId : ObjId) (s : DiffState) :
    Except Failure (Status × DiffState) := do
  let ms ← s.toState.mutexAt mutexId
  let s ← s.replaceStateForObj mutexId (.mutex { currentState := .unlocked, location := ms.location })
  return (.exists', s)

def MutexLock.modify (executor : RunnerId) (mutexId : ObjId) (s : DiffState) :
    Except Failure (Status × DiffState) := do
  let ms ← s.toState.mutexAt mutexId
  if ms.isLocked then return (.disabled, s)
  let s ← s.replaceStateForObj mutexId (.mutex ⟨.locked, ms.location, executor⟩)
  return (.exists', s)

def MutexUnlock.modify (executor : RunnerId) (mutexId : ObjId) (s : DiffState) :
    Except Failure (Status × DiffState) := do
  let ms ← s.toState.mutexAt mutexId
  if !ms.isLockedBy executor then return (.disabled, s)
  let s ← s.replaceStateForObj mutexId (.mutex { currentState := .unlocked, location := ms.location })
  return (.exists', s)

/-! ### Condition variables -/

def ConditionVariableInit.modify (condId : ObjId) (s : DiffState) :
    Except Failure (Status × DiffState) := do
  let s ← s.replaceStateForObj condId (.conditionVariable { currentState := .initialized })
  return (.exists', s)

/-- The executor, which must hold the mutex, falls asleep and releases it. The state of
the condition variable is not examined. -/
def ConditionVariableEnqueueThread.modify (executor : RunnerId) (condId mutexId : ObjId)
    (s : DiffState) : Except Failure (Status × DiffState) := do
  let cv ← s.toState.conditionVariableAt condId
  let m ← s.toState.mutexAt mutexId
  if m.isUnlocked then return (.disabled, s)
  if !m.isLockedBy executor then return (.disabled, s)
  let s ← s.replaceStateForObj condId (.conditionVariable (cv.enqueueThread executor m.location))
  let s ← s.replaceStateForObj mutexId (.mutex { currentState := .unlocked, location := m.location })
  return (.exists', s)

/-- The executor wakes up and takes the mutex again. -/
def ConditionVariableWait.modify (executor : RunnerId) (condId mutexId : ObjId)
    (s : DiffState) : Except Failure (Status × DiffState) := do
  let cv ← s.toState.conditionVariableAt condId
  let m ← s.toState.mutexAt mutexId
  if cv.isUninitialized || cv.isDestroyed then return (.undefined, s)
  if m.isLockedBy executor then return (.disabled, s)
  if !(cv.waiterCanExit executor && m.location == cv.associatedMutex && m.isUnlocked) then
    return (.disabled, s)
  let s ← s.replaceStateForObj mutexId (.mutex ⟨.locked, m.location, executor⟩)
  match cv.wait executor m.location with
  | none => throw (.undefinedBehavior "wake_thread: no wake group contains the thread")
  | some newCv =>
    let s ← s.replaceStateForObj condId (.conditionVariable newCv)
    return (.exists', s)

/-- A signal without a queued thread changes nothing. -/
def ConditionVariableSignal.modify (condId : ObjId) (s : DiffState) :
    Except Failure (Status × DiffState) := do
  let cv ← s.toState.conditionVariableAt condId
  if cv.isUninitialized then return (.undefined, s)
  if cv.isDestroyed then return (.undefined, s)
  if !cv.hasWaiters then return (.exists', s)
  let s ← s.replaceStateForObj condId (.conditionVariable cv.signal)
  return (.exists', s)

def ConditionVariableBroadcast.modify (executor : RunnerId) (condId : ObjId)
    (s : DiffState) : Except Failure (Status × DiffState) := do
  let cv ← s.toState.conditionVariableAt condId
  if cv.isUninitialized then return (.undefined, s)
  if cv.isDestroyed then return (.undefined, s)
  if !cv.hasWaiters then return (.exists', s)
  let s ← s.replaceStateForObj condId (.conditionVariable (cv.broadcast executor))
  return (.exists', s)

/-- Destroying is refused while a thread is queued. The mutex association is cleared. -/
def ConditionVariableDestroy.modify (executor : RunnerId) (condId : ObjId)
    (s : DiffState) : Except Failure (Status × DiffState) := do
  let cv ← s.toState.conditionVariableAt condId
  if cv.isUninitialized then return (.undefined, s)
  if cv.isDestroyed then return (.undefined, s)
  if cv.hasWaiters then return (.undefined, s)
  let s ← s.replaceStateForObj condId
    (.conditionVariable { currentState := .destroyed, runningThread := executor })
  return (.exists', s)

/-! ### Semaphores -/

def SemInit.modify (semId : ObjId) (count : BitVec 32) (s : DiffState) :
    Except Failure (Status × DiffState) := do
  let s ← s.replaceStateForObj semId (.semaphore (.ofCount count))
  return (.exists', s)

def SemPost.modify (semId : ObjId) (s : DiffState) :
    Except Failure (Status × DiffState) := do
  let sem ← s.toState.semaphoreAt semId
  let s ← s.replaceStateForObj semId (.semaphore (.ofCount (sem.count + 1)))
  return (.exists', s)

def SemWait.modify (semId : ObjId) (s : DiffState) :
    Except Failure (Status × DiffState) := do
  let sem ← s.toState.semaphoreAt semId
  if sem.willBlock then return (.disabled, s)
  let s ← s.replaceStateForObj semId (.semaphore (.ofCount (sem.count - 1)))
  return (.exists', s)

/-! ### Threads and the process -/

def ThreadCreate.modify (target : RunnerId) (s : DiffState) :
    Except Failure (Status × DiffState) := do
  let s ← s.replaceStateForRunner target ⟨.running⟩
  return (.exists', s)

def ThreadStart.modify (executor : RunnerId) (s : DiffState) :
    Except Failure (Status × DiffState) := do
  let threadState ← s.toState.getStateOfRunner executor
  return (if threadState.isEmbryo then .disabled else .exists', s)

def ThreadJoin.modify (target : RunnerId) (s : DiffState) :
    Except Failure (Status × DiffState) := do
  let targetState ← s.toState.getStateOfRunner target
  return (if targetState.hasExited then .exists' else .disabled, s)

/-- The main thread never exits this way. -/
def ThreadExit.modify (executor : RunnerId) (s : DiffState) :
    Except Failure (Status × DiffState) := do
  let threadState ← s.toState.getStateOfRunner executor
  if !threadState.isRunning || executor == ridMainThread then return (.disabled, s)
  let s ← s.replaceStateForRunner executor ⟨.exited⟩
  return (.exists', s)

def ProcessExit.modify (executor : RunnerId) (s : DiffState) :
    Except Failure (Status × DiffState) := do
  let s ← s.replaceStateForRunner executor ⟨.exited⟩
  return (.exists', s)

def ProcessAbort.modify (s : DiffState) : Except Failure (Status × DiffState) :=
  return (.exists', s)

/-! ### Applying transitions -/

/-- `to_string`. -/
instance : ToString Transition where
  toString t := match t.op with
    | .mutexInit m => "pthread_mutex_init(mutex:" ++ toString m ++ ")"
    | .mutexLock m => "pthread_mutex_lock(mutex:" ++ toString m ++ ")"
    | .mutexUnlock m => "pthread_mutex_unlock(mutex:" ++ toString m ++ ")"
    | .conditionVariableInit c =>
      "pthread_cond_init(condition_variable:" ++ toString c ++ ")"
    | .conditionVariableEnqueueThread c m => "pthread_cond_wait(cond:" ++ toString c ++
      ", mutex:" ++ toString m ++ "(awake -> asleep))"
    | .conditionVariableWait c m => "thread: " ++ toString t.executor ++
      " pthread_cond_wait (cond: )" ++ toString c ++ ", mutex: " ++ toString m ++
      ") (asleep -> awake)"
    | .conditionVariableSignal c => "pthread_cond_signal(cond:" ++ toString c ++ ")"
    | .conditionVariableBroadcast c =>
      "pthread_cond_broadcast(condition_variable:" ++ toString c ++ ")"
    | .conditionVariableDestroy c =>
      "pthread_cond_destroy(condition_variable:" ++ toString c ++ ")"
    | .semInit i _ => "sem_init(semaphore:" ++ toString i ++ ")"
    | .semPost i => "sem_post(semaphore:" ++ toString i ++ ")"
    | .semWait i => "sem_wait(semaphore:" ++ toString i ++ ")"
    | .threadCreate target => "pthread_create(thread: " ++ toString target ++ ")"
    | .threadStart => "starts"
    | .threadJoin target => "pthread_join(thread: " ++ toString target ++ ")"
    | .threadExit => "exits"
    | .processExit _ => "exit(2) (syscall)"
    | .processAbort => "abort(2) (syscall)"

namespace Transition

def debugString (t : Transition) : String :=
  "thread " ++ toString t.executor ++ ": " ++ toString t

/-- The virtual method `modify`. -/
def modify (t : Transition) (s : DiffState) : Except Failure (Status × DiffState) :=
  match t.op with
  | .mutexInit m => MutexInit.modify m s
  | .mutexLock m => MutexLock.modify t.executor m s
  | .mutexUnlock m => MutexUnlock.modify t.executor m s
  | .conditionVariableInit c => ConditionVariableInit.modify c s
  | .conditionVariableEnqueueThread c m => ConditionVariableEnqueueThread.modify t.executor c m s
  | .conditionVariableWait c m => ConditionVariableWait.modify t.executor c m s
  | .conditionVariableSignal c => ConditionVariableSignal.modify c s
  | .conditionVariableBroadcast c => ConditionVariableBroadcast.modify t.executor c s
  | .conditionVariableDestroy c => ConditionVariableDestroy.modify t.executor c s
  | .semInit i n => SemInit.modify i n s
  | .semPost i => SemPost.modify i s
  | .semWait i => SemWait.modify i s
  | .threadCreate target => ThreadCreate.modify target s
  | .threadStart => ThreadStart.modify t.executor s
  | .threadJoin target => ThreadJoin.modify target s
  | .threadExit => ThreadExit.modify t.executor s
  | .processExit _ => ProcessExit.modify t.executor s
  | .processAbort => ProcessAbort.modify s

/-- Applies a transition, of which `modify` is the method, to a state. Unless the executor is active
and the transition exists, the result is the unchanged state, disabled. -/
def applyBy (modify : DiffState → Except Failure (Status × DiffState)) (executor : RunnerId)
    (s : State) : Except Failure (DiffState × Status) := do
  let executorState ← s.getStateOfRunner executor
  if !executorState.isActive then return (DiffState.ofState s, .disabled)
  let (status, s') ← modify (DiffState.ofState s)
  if status = .exists' then return (s', .exists')
  return (DiffState.ofState s, .disabled)

def applyTo (t : Transition) (s : State) : Except Failure (DiffState × Status) :=
  applyBy t.modify t.executor s

def isEnabledIn (t : Transition) (s : State) : Except Failure Bool := do
  let (_, status) ← t.applyTo s
  return status == .exists'

/-- `process_exit` carries the exit code of the program; every other transition answers
`-1`. -/
def programExitCode (t : Transition) : ℤ :=
  match t.op with
  | .processExit exitCode => exitCode
  | _ => -1

def abortsProgramExecution (t : Transition) : Bool :=
  match t.op with
  | .processAbort => true
  | _ => false

end Transition

/-- The transition as a partial function on states, defined where it is enabled. -/
def fire (t : Transition) (s : State) : Option State :=
  match t.applyTo s with
  | .ok (s', .exists') => some s'.toState
  | _ => none

/-- The transition is enabled in the state. -/
def Enabled (t : Transition) (s : State) : Prop := (fire t s).isSome = true

instance (t : Transition) (s : State) : Decidable (Enabled t s) :=
  inferInstanceAs (Decidable (_ = true))

theorem enabled_iff {t : Transition} {s : State} : Enabled t s ↔ ∃ s', fire t s = some s' :=
  Option.isSome_iff_exists

/-- The model's test for enabledness decides whether the transition fires. -/
theorem isEnabledIn_eq_ok_true {t : Transition} {s : State} :
    t.isEnabledIn s = .ok true ↔ Enabled t s := by
  unfold Transition.isEnabledIn Enabled fire
  rcases t.applyTo s with _ | ⟨d, _ | _ | _⟩ <;> simp [bind, Except.bind, pure, Except.pure]

/-- Applying a transition succeeds when its executor is active and its `modify` reports
that it exists. -/
theorem Transition.applyBy_eq_ok_exists
    {modify : DiffState → Except Failure (Status × DiffState)} {p : RunnerId} {s : State}
    {d : DiffState} :
    Transition.applyBy modify p s = .ok (d, .exists') ↔
      s.Active p ∧ modify (DiffState.ofState s) = .ok (.exists', d) := by
  simp only [Transition.applyBy, bind_eq_ok, State.getStateOfRunner_eq_ok, State.active_iff]
  constructor
  · rintro ⟨th, hth, h⟩
    cases hact : th.isActive with
    | false => simp [hact, pure, Except.pure] at h
    | true =>
      simp only [hact, Bool.not_true, Bool.false_eq_true, if_false, bind_eq_ok] at h
      obtain ⟨⟨st, d'⟩, hmod, h⟩ := h
      by_cases hst : st = .exists'
      · subst hst
        obtain rfl : d' = d := by simpa [pure, Except.pure] using h
        exact ⟨⟨th, hth, hact⟩, hmod⟩
      · simp [hst, pure, Except.pure] at h
  · rintro ⟨⟨th, hth, hact⟩, hmod⟩
    refine ⟨th, hth, ?_⟩
    simp [hact, hmod, bind, Except.bind, pure, Except.pure]

theorem Transition.applyTo_eq_ok_exists {t : Transition} {s : State} {d : DiffState} :
    t.applyTo s = .ok (d, .exists') ↔
      s.Active t.executor ∧ t.modify (DiffState.ofState s) = .ok (.exists', d) :=
  Transition.applyBy_eq_ok_exists

/-- A transition fires when its executor is active and its `modify` reports that it
exists. -/
theorem fire_eq_some_iff {t : Transition} {s s' : State} :
    fire t s = some s' ↔
      s.Active t.executor ∧
        ∃ d, t.modify (DiffState.ofState s) = .ok (.exists', d) ∧ d.toState = s' := by
  have applyTo_iff : fire t s = some s' ↔ ∃ d, t.applyTo s = .ok (d, .exists') ∧ d.toState = s' := by
    unfold fire
    rcases t.applyTo s with _ | ⟨d, _ | _ | _⟩ <;> simp
  rw [applyTo_iff]
  simp only [Transition.applyTo_eq_ok_exists]
  exact ⟨fun ⟨d, ⟨ha, hd⟩, h⟩ => ⟨ha, d, hd, h⟩, fun ⟨ha, d, hd, h⟩ => ⟨d, ⟨ha, hd⟩, h⟩⟩

end McMini
