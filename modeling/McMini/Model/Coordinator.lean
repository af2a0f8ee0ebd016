import McMini.Model.Program

/-!
# The coordinator

The coordinator keeps the model and a live process in step. When it executes a runner, the
process runs to the runner's next operation and reports it in a mailbox; a callback
translates the report into a transition, and the model executes the runner's previous one.
The callbacks know the objects of the target by their addresses. An object which is seen
for the first time is added to the model.

To go back, the coordinator restores the model, starts a new process and makes it execute
the trace again. What the callbacks have added since is not undone.

A process is a function of the runners it has executed so far: its reports, including what
the coordinator reads from its memory, depend on the schedule only.
-/

namespace McMini

open Foundation

/-- What a runner writes into its mailbox: the operation it executes next, with addresses
of the target. Where the callback looks into the memory of the target, the report says
whether the object there is statically initialized. -/
inductive MailboxContents
  | mutexInit (remoteMut : Addr)
  | mutexLock (remoteMut : Addr) (isStaticInitializer : Bool)
  | mutexUnlock (remoteMut : Addr)
  | condInit (remoteCond : Addr)
  | condEnqueue (remoteCond remoteMut : Addr) (isStaticInitializer : Bool)
  | condWait (remoteCond remoteMut : Addr)
  | condSignal (remoteCond : Addr) (isStaticInitializer : Bool)
  | condBroadcast (remoteCond : Addr) (isStaticInitializer : Bool)
  | condDestroy (remoteCond : Addr)
  | semInit (remoteSem : Addr) (count : BitVec 32)
  | semPost (remoteSem : Addr)
  | semWait (remoteSem : Addr)
  | semDestroy (remoteSem : Addr)
  | threadCreate (newThread : Addr)
  | threadExit
  | threadJoin (target : RunnerId)
  | processExit (exitCode : ℤ)
  | processAbort
  | unregistered (rttid : ℕ)

/-- The address whose object or runner the callback adds when it does not know it. -/
def MailboxContents.observed : MailboxContents → Option Addr
  | .mutexInit a | .mutexLock a _ | .condInit a | .condEnqueue a _ _ | .condSignal a _
  | .condBroadcast a _ | .semInit a _ | .threadCreate a => some a
  | _ => none

/-- A deterministic source of processes: after the given runners have been executed, the
runner reports its next operation, or the process ends. -/
abbrev ProcessSource := List RunnerId → RunnerId → Except Failure MailboxContents

/-- The coordinator. Of its process it keeps the runners it has executed. -/
structure Coordinator where
  currentProgramModel : Program
  systemAddressMapping : Finmap fun _ : Addr => ObjId
  executed : List RunnerId

/-- Computations of the coordinator, which keep their effects when they throw. -/
abbrev CoordinatorM := ExceptT Failure (StateM Coordinator)

namespace Coordinator

/-! ### Addresses and objects -/

def getModelOfObject (c : Coordinator) (handle : Addr) : ObjId :=
  (c.systemAddressMapping.lookup handle).getD objidInvalid

/-- The state which represents the model. -/
def getStateSequence (c : Coordinator) : StateSequence := c.currentProgramModel.stateSeq

def getModelOfRunner (c : Coordinator) (handle : Addr) : RunnerId :=
  let objid := c.getModelOfObject handle
  if objid ≠ objidInvalid then
    (c.getStateSequence.getRunnerIdForObjAt c.getStateSequence.representative objid).getD ridInvalid
  else ridInvalid

def contains (c : Coordinator) (handle : Addr) : Bool := c.getModelOfObject handle != objidInvalid

def containsRunner (c : Coordinator) (handle : Addr) : Bool :=
  c.getModelOfRunner handle != ridInvalid

/-- The state of the object at an address of the target. -/
def objectAt (c : Coordinator) (handle : Addr) : Option VisibleObjectState :=
  (c.systemAddressMapping.lookup handle).bind c.getStateSequence.toState.objectState

def setStateSeq (c : Coordinator) (s : StateSequence) : Coordinator :=
  { c with currentProgramModel := { c.currentProgramModel with stateSeq := s } }

/-- `system_address_mapping.insert({handle, objid})`. An entry which is there already stays, also
one for no object. -/
def insertAddress (c : Coordinator) (handle : Addr) (objid : ObjId) :
    Finmap fun _ : Addr => ObjId :=
  if c.systemAddressMapping.lookup handle = none then c.systemAddressMapping.insert handle objid
  else c.systemAddressMapping

theorem insertAddress_of_unknown {c : Coordinator} {handle : Addr} {objid : ObjId}
    (h : c.systemAddressMapping.lookup handle = none) :
    c.insertAddress handle objid = c.systemAddressMapping.insert handle objid := if_pos h

end Coordinator

section Callbacks

open Coordinator

def rebindMessage : String :=
  "Attempting to rebind a remote address to an object that already exists in the model. " ++
    "Did you check that the object doesn't already exist?"

/-- Adds the object at the address to the model. -/
def observeObject (handle : Addr) (o : VisibleObjectState) : CoordinatorM Unit := do
  let c ← get
  if c.contains handle then throw (.runtimeError rebindMessage)
  let (s, newObjid) := c.getStateSequence.addObject o
  let c := c.setStateSeq s
  set { c with systemAddressMapping := c.insertAddress handle newObjid }

/-- Adds the runner at the address to the model, with the transition `f` names for it. -/
def observeRunner (handle : Addr) (t : Thread) (f : RunnerId → Transition) :
    CoordinatorM Unit := do
  let c ← get
  if c.contains handle then throw (.runtimeError rebindMessage)
  let (s, result) := c.getStateSequence.addRunner t
  let c := c.setStateSeq s
  match result with
  | .error e => set c; throw e
  | .ok newRunnerId =>
    let newObjid := (s.getObjidForRunnerAt s.representative newRunnerId).getD objidInvalid
    set { c with
      currentProgramModel := c.currentProgramModel.setTransition (f newRunnerId)
      systemAddressMapping := c.insertAddress handle newObjid }

/-- `if (!m.contains(handle)) m.observe_object(handle, o)`. -/
def ensureObserved (handle : Addr) (o : VisibleObjectState) : CoordinatorM Unit := do
  if !(← get).contains handle then observeObject handle o

/-- Objects which are initialized statically are added when they are used first. -/
def ensureInitialized (handle : Addr) (isStaticInitializer : Bool) (o : VisibleObjectState)
    (message : String) : CoordinatorM Unit := do
  if !(← get).contains handle then
    if !isStaticInitializer then throw (.undefinedBehaviorException message)
    observeObject handle o

/-- Using an object the model has not seen is undefined behavior of the target. -/
def requireObserved (handle : Addr) (message : String) : CoordinatorM Unit := do
  if !(← get).contains handle then throw (.undefinedBehaviorException message)

def modelOf (handle : Addr) : CoordinatorM ObjId := do return (← get).getModelOfObject handle

/-! ### What these computations do -/

section Run

variable {α β : Type} {c : Coordinator}

theorem run_bind (x : CoordinatorM α) (f : α → CoordinatorM β) (c : Coordinator) :
    (x >>= f).run c = match x.run c with
      | (.ok a, c') => (f a).run c'
      | (.error e, c') => (.error e, c') := by
  have hbind : (x >>= f).run c = ExceptT.bindCont f (x.run c).1 (x.run c).2 := rfl
  rw [hbind]
  rcases x.run c with ⟨_ | _, c'⟩
  · rfl
  · rfl

theorem run_get : (get : CoordinatorM Coordinator).run c = (.ok c, c) := rfl

theorem run_pure {a : α} : (pure a : CoordinatorM α).run c = (.ok a, c) := rfl

/-- The coordinator which has added the object at the address. -/
def Coordinator.observe (c : Coordinator) (handle : Addr) (o : VisibleObjectState) :
    Coordinator :=
  { c.setStateSeq (c.getStateSequence.addObject o).1 with
    systemAddressMapping := c.insertAddress handle (c.getStateSequence.addObject o).2 }

variable {handle : Addr} {o : VisibleObjectState}

theorem observeObject_run (h : c.contains handle = false) :
    (observeObject handle o).run c = (.ok (), c.observe handle o) := by
  unfold observeObject
  simp only [run_bind, run_get, h]
  rfl

theorem ensureObserved_run :
    (ensureObserved handle o).run c =
      (.ok (), if c.contains handle then c else c.observe handle o) := by
  unfold ensureObserved
  simp only [run_bind, run_get]
  cases h : c.contains handle with
  | false => exact observeObject_run h
  | true => rfl

theorem ensureInitialized_run {isStaticInitializer : Bool} {message : String} :
    (ensureInitialized handle isStaticInitializer o message).run c =
      if c.contains handle then (.ok (), c)
      else if isStaticInitializer then (.ok (), c.observe handle o)
      else (.error (.undefinedBehaviorException message), c) := by
  unfold ensureInitialized
  simp only [run_bind, run_get]
  cases h : c.contains handle with
  | false =>
    cases isStaticInitializer with
    | false => rfl
    | true => exact observeObject_run h
  | true => rfl

theorem requireObserved_run {message : String} :
    (requireObserved handle message).run c =
      if c.contains handle then (.ok (), c)
      else (.error (.undefinedBehaviorException message), c) := by
  unfold requireObserved
  simp only [run_bind, run_get]
  cases c.contains handle <;> rfl

theorem modelOf_run : (modelOf handle).run c = (.ok (c.getModelOfObject handle), c) := rfl

end Run

variable (p : RunnerId)

/-! ### The callbacks -/

def mutexInitCallback (remoteMut : Addr) : CoordinatorM Transition := do
  ensureObserved remoteMut (.mutex ⟨.uninitialized, remoteMut, ridInvalid⟩)
  return ⟨p, .mutexInit (← modelOf remoteMut)⟩

def mutexLockCallback (remoteMut : Addr) (isStaticInitializer : Bool) :
    CoordinatorM Transition := do
  ensureInitialized remoteMut isStaticInitializer (.mutex ⟨.unlocked, remoteMut, ridInvalid⟩)
    "Attempting to lock an uninitialized mutex"
  return ⟨p, .mutexLock (← modelOf remoteMut)⟩

def mutexUnlockCallback (remoteMut : Addr) : CoordinatorM Transition := do
  requireObserved remoteMut "Attempting to unlock an uninitialized mutex"
  return ⟨p, .mutexUnlock (← modelOf remoteMut)⟩

def condInitCallback (remoteCond : Addr) : CoordinatorM Transition := do
  ensureObserved remoteCond (.conditionVariable { currentState := .initialized })
  return ⟨p, .conditionVariableInit (← modelOf remoteCond)⟩

def ensureCondInitialized (remoteCond : Addr) (isStaticInitializer : Bool)
    (ubMessage : String) : CoordinatorM Unit :=
  ensureInitialized remoteCond isStaticInitializer
    (.conditionVariable { currentState := .initialized }) ubMessage

/-- The condition variable may be added before the mutex is missed. -/
def condWaitingThreadEnqueueCallback (remoteCond remoteMut : Addr)
    (isStaticInitializer : Bool) : CoordinatorM Transition := do
  ensureCondInitialized remoteCond isStaticInitializer
    "Attempting to wait on an uninitialized condition variable"
  requireObserved remoteMut
    "Attempting to wait on a condition variable with an uninitialized mutex"
  return ⟨p, .conditionVariableEnqueueThread (← modelOf remoteCond) (← modelOf remoteMut)⟩

def condWaitCallback (remoteCond remoteMut : Addr) : CoordinatorM Transition := do
  requireObserved remoteCond "Attempting to wait on an uninitialized condition variable"
  requireObserved remoteMut
    "Attempting to wait on a condition variable with an uninitialized mutex"
  return ⟨p, .conditionVariableWait (← modelOf remoteCond) (← modelOf remoteMut)⟩

def condSignalCallback (remoteCond : Addr) (isStaticInitializer : Bool) :
    CoordinatorM Transition := do
  ensureCondInitialized remoteCond isStaticInitializer
    "Attempting to signal an uninitialized condition variable"
  return ⟨p, .conditionVariableSignal (← modelOf remoteCond)⟩

def condBroadcastCallback (remoteCond : Addr) (isStaticInitializer : Bool) :
    CoordinatorM Transition := do
  ensureCondInitialized remoteCond isStaticInitializer
    "Attempting to broadcast on an uninitialized condition variable"
  return ⟨p, .conditionVariableBroadcast (← modelOf remoteCond)⟩

def condDestroyCallback (remoteCond : Addr) : CoordinatorM Transition := do
  requireObserved remoteCond "Attempting to destroy an uninitialized condition variable"
  return ⟨p, .conditionVariableDestroy (← modelOf remoteCond)⟩

def semInitCallback (remoteSem : Addr) (count : BitVec 32) : CoordinatorM Transition := do
  ensureObserved remoteSem (.semaphore {})
  return ⟨p, .semInit (← modelOf remoteSem) count⟩

def semPostCallback (remoteSem : Addr) : CoordinatorM Transition := do
  requireObserved remoteSem "Attempting to post to an uninitialized semaphore"
  return ⟨p, .semPost (← modelOf remoteSem)⟩

def semWaitCallback (remoteSem : Addr) : CoordinatorM Transition := do
  requireObserved remoteSem "Attempting to wait on an uninitialized semaphore"
  return ⟨p, .semWait (← modelOf remoteSem)⟩

/-- The callback of `sem_destroy` returns no transition, which `execute_runner` refuses. -/
def semDestroyCallback (remoteSem : Addr) : CoordinatorM Transition := do
  requireObserved remoteSem "Attempting to wait on an uninitialized semaphore"
  throw (.runtimeError ("Failed to translate the data written into the mailbox of runner " ++
    toString p))

def threadCreateCallback (newThread : Addr) : CoordinatorM Transition := do
  if !(← get).containsRunner newThread then
    observeRunner newThread ⟨.embryo⟩ fun id => ⟨id, .threadStart⟩
  return ⟨p, .threadCreate ((← get).getModelOfRunner newThread)⟩

def threadJoinCallback (target : RunnerId) : CoordinatorM Transition := do
  if target = ridInvalid then
    throw (.runtimeError "Attemping to join on an unmodeled thread (ffff) unrecognized")
  return ⟨p, .threadJoin target⟩

/-- Translates the report of the runner `p`: the callback registered for its type. -/
def callback : MailboxContents → CoordinatorM Transition
  | .mutexInit a => mutexInitCallback p a
  | .mutexLock a st => mutexLockCallback p a st
  | .mutexUnlock a => mutexUnlockCallback p a
  | .condInit a => condInitCallback p a
  | .condEnqueue a m st => condWaitingThreadEnqueueCallback p a m st
  | .condWait a m => condWaitCallback p a m
  | .condSignal a st => condSignalCallback p a st
  | .condBroadcast a st => condBroadcastCallback p a st
  | .condDestroy a => condDestroyCallback p a
  | .semInit a count => semInitCallback p a count
  | .semPost a => semPostCallback p a
  | .semWait a => semWaitCallback p a
  | .semDestroy a => semDestroyCallback p a
  | .threadCreate a => threadCreateCallback p a
  | .threadExit => return ⟨p, .threadExit⟩
  | .threadJoin target => threadJoinCallback p target
  | .processExit exitCode => return ⟨p, .processExit exitCode⟩
  | .processAbort => return ⟨p, .processAbort⟩
  | .unregistered rttid => throw (.runtimeError
      ("Execution resulted in a runner scheduled to execute the transition type with the RTTID '" ++
        toString rttid ++ "' but this identifier has not been registered before model checking " ++
        "began. Double check that the coordinator was properly configured before launch; " ++
        "otherwise, please report this as a bug in libmcmini.so with this message."))

/-! ### What a callback leaves behind -/

/-- The coordinator is left as it is, or one object or one runner which begins is added at an
address it does not know. -/
inductive Adds (c : Coordinator) : Coordinator → Prop
  | nothing : Adds c c
  | object {handle : Addr} {o : VisibleObjectState} (hnew : c.contains handle = false) :
      Adds c (c.observe handle o)
  | runner {handle : Addr} (hnew : c.contains handle = false) :
      Adds c ((observeRunner handle ⟨.embryo⟩ fun id => ⟨id, .threadStart⟩).run c).2

/-- The coordinator is left as it is, or one object is added at an address it does not know. -/
inductive AddsObject (c : Coordinator) : Coordinator → Prop
  | nothing : AddsObject c c
  | object {handle : Addr} {o : VisibleObjectState} (hnew : c.contains handle = false) :
      AddsObject c (c.observe handle o)

section Adds

variable {c c' : Coordinator} {handle : Addr} {o : VisibleObjectState} {message : String}
  {x : CoordinatorM Transition} {g : ObjId → Transition}

theorem AddsObject.adds (h : AddsObject c c') : Adds c c' := by
  cases h with
  | nothing => exact .nothing
  | object hnew => exact .object hnew

theorem addsObject_ensureObserved : AddsObject c
    ((ensureObserved handle o >>= fun _ => modelOf handle >>= fun i => pure (g i)).run c).2 := by
  simp only [run_bind, ensureObserved_run, modelOf_run, run_pure]
  cases hnew : c.contains handle with
  | true => exact .nothing
  | false => exact .object hnew

/-- A requirement adds nothing, and what follows it may be met by an exception. -/
theorem adds_requireObserved (hx : ∀ d, (x.run d).2 = d) :
    ((requireObserved handle message >>= fun _ => x).run c).2 = c := by
  simp only [run_bind, requireObserved_run]
  cases c.contains handle with
  | true => exact hx c
  | false => rfl

theorem addsObject_ensureInitialized {isStaticInitializer : Bool} (hx : ∀ d, (x.run d).2 = d) :
    AddsObject c
      ((ensureInitialized handle isStaticInitializer o message >>= fun _ => x).run c).2 := by
  simp only [run_bind, ensureInitialized_run]
  cases hnew : c.contains handle with
  | true =>
    rw [if_pos rfl]
    exact (hx c).symm ▸ .nothing
  | false =>
    rw [if_neg Bool.false_ne_true]
    cases isStaticInitializer with
    | false => exact .nothing
    | true =>
      rw [if_pos rfl]
      exact (hx (c.observe handle o)).symm ▸ .object hnew

theorem observeRunner_run_of_contains {t : Thread} {f : RunnerId → Transition}
    (h : c.contains handle = true) :
    (observeRunner handle t f).run c = (.error (.runtimeError rebindMessage), c) := by
  unfold observeRunner
  simp only [run_bind, run_get, h]
  rfl

theorem adds_threadCreateCallback : Adds c ((threadCreateCallback p handle).run c).2 := by
  unfold threadCreateCallback
  simp only [run_bind, run_get]
  cases hrunner : c.containsRunner handle with
  | true => exact .nothing
  | false =>
    have hadds : Adds c ((observeRunner handle ⟨.embryo⟩ fun id => ⟨id, .threadStart⟩).run c).2 := by
      cases hnew : c.contains handle with
      | false => exact .runner hnew
      | true =>
        rw [observeRunner_run_of_contains hnew]
        exact .nothing
    simp only [Bool.not_false, if_true, run_bind]
    rcases hrun : (observeRunner handle ⟨.embryo⟩ fun id => ⟨id, .threadStart⟩).run c
      with ⟨_ | _, c'⟩
    · rw [hrun] at hadds
      exact hadds
    · rw [hrun] at hadds
      exact hadds

/-- Only the callback of a thread creation adds a runner. -/
theorem callback_addsObject {contents : MailboxContents}
    (h : ∀ a, contents ≠ .threadCreate a) (c : Coordinator) :
    AddsObject c ((callback p contents).run c).2 := by
  have hread : ∀ (a m : Addr) (g : ObjId → ObjId → Transition) (d : Coordinator),
      ((modelOf a >>= fun i => modelOf m >>= fun j => pure (g i j)).run d).2 = d :=
    fun _ _ _ _ => rfl
  have hrequire : ∀ {a : Addr} {message : String} {x : CoordinatorM Transition},
      (∀ d, (x.run d).2 = d) → AddsObject c ((requireObserved a message >>= fun _ => x).run c).2 :=
    fun hx => (adds_requireObserved hx).symm ▸ .nothing
  cases contents with
  | mutexInit a | condInit a | semInit a => exact addsObject_ensureObserved
  | mutexLock a | condSignal a | condBroadcast a => exact addsObject_ensureInitialized fun _ => rfl
  | mutexUnlock a | condDestroy a | semPost a | semWait a | semDestroy a =>
    exact hrequire fun _ => rfl
  | condEnqueue a m =>
    exact addsObject_ensureInitialized fun _ => adds_requireObserved (hread a m _)
  | condWait a m => exact hrequire fun _ => adds_requireObserved (hread a m _)
  | threadCreate a => exact absurd rfl (h a)
  | threadJoin target =>
    simp only [callback, threadJoinCallback]
    by_cases ht : target = ridInvalid
    · rw [if_pos ht]
      exact .nothing
    · rw [if_neg ht]
      exact .nothing
  | threadExit | processExit | processAbort | unregistered => exact .nothing

/-- **A callback adds at most one object or runner.** -/
theorem callback_adds (contents : MailboxContents) (c : Coordinator) :
    Adds c ((callback p contents).run c).2 := by
  by_cases h : ∃ a, contents = .threadCreate a
  · obtain ⟨a, rfl⟩ := h
    exact adds_threadCreateCallback p
  · exact (callback_addsObject p (fun a ha => h ⟨a, ha⟩) c).adds

/-- Computations which only return transitions of the runner. -/
def Names (p : RunnerId) (x : CoordinatorM Transition) : Prop :=
  ∀ c t, (x.run c).1 = .ok t → t.executor = p

theorem names_pure (op : Operation) : Names p (pure ⟨p, op⟩) := by
  intro c t h
  obtain rfl := Except.ok.inj h
  rfl

theorem names_throw (e : Failure) : Names p (throw e) := fun _ _ h => nomatch h

theorem names_bind {α : Type} {y : CoordinatorM α} {f : α → CoordinatorM Transition}
    (hf : ∀ a, Names p (f a)) : Names p (y >>= f) := by
  intro c t h
  rw [run_bind] at h
  rcases hrun : y.run c with ⟨e | a, d⟩
  · rw [hrun] at h
    cases h
  · rw [hrun] at h
    exact hf a d t h

/-- The callbacks return transitions of the runner which reports. -/
theorem callback_names (contents : MailboxContents) : Names p (callback p contents) := by
  have hreturn : ∀ {α : Type} {y : CoordinatorM α} {a : Addr} {op : ObjId → Operation},
      Names p (y >>= fun _ => modelOf a >>= fun i => pure ⟨p, op i⟩) :=
    names_bind p fun _ => names_bind p fun _ => names_pure p _
  have hreturn₂ : ∀ {a m : Addr} {op : ObjId → ObjId → Operation},
      Names p (modelOf a >>= fun i => modelOf m >>= fun j => pure ⟨p, op i j⟩) :=
    names_bind p fun _ => names_bind p fun _ => names_pure p _
  cases contents with
  | mutexInit a | mutexLock a | mutexUnlock a | condInit a | condSignal a | condBroadcast a
  | condDestroy a | semInit a | semPost a | semWait a => exact hreturn
  | condEnqueue a m | condWait a m => exact names_bind p fun _ => names_bind p fun _ => hreturn₂
  | semDestroy a => exact names_bind p fun _ => names_throw p _
  | threadCreate a =>
    have hread : Names p (get >>= fun d : Coordinator =>
        (pure ⟨p, .threadCreate (d.getModelOfRunner a)⟩ : CoordinatorM Transition)) :=
      names_bind p fun _ => names_pure p _
    refine names_bind p fun d => ?_
    dsimp only
    split
    · exact names_bind p fun _ => hread
    · exact hread
  | threadJoin target =>
    show Names p (threadJoinCallback p target)
    unfold threadJoinCallback
    dsimp only
    split
    · exact names_bind p fun _ => names_pure p _
    · exact names_pure p _
  | threadExit => exact names_pure p _
  | processExit n => exact names_pure p _
  | processAbort => exact names_pure p _
  | unregistered n => exact names_throw p _

end Adds

end Callbacks

/-! ### Executing and going back -/

section

variable (source : ProcessSource)

/-- Makes the process execute the runner. -/
def processExecute (p : RunnerId) : CoordinatorM MailboxContents := do
  let c ← get
  set { c with executed := c.executed ++ [p] }
  match source c.executed p with
  | .error e => throw e
  | .ok contents => return contents

/-- Executes the runner in the process and in the model. -/
def executeRunner (p : RunnerId) : CoordinatorM Unit := do
  let contents ← processExecute source p
  let pendingOperation ← callback p contents
  let c ← get
  match c.currentProgramModel.modelExecutionOf p pendingOperation with
  | .error e => throw e
  | .ok program => set { c with currentProgramModel := program }

/-- Makes the process execute the runners one after the other. -/
def replay : List RunnerId → CoordinatorM Unit
  | [] => return ()
  | p :: ps => do
    let _ ← processExecute source p
    replay ps

/-- Restores the model, and a new process at the same point. -/
def returnToDepth (n : ℕ) : CoordinatorM Unit := do
  let c ← get
  let (program, result) := c.currentProgramModel.restoreModelAtDepth n
  set { c with currentProgramModel := program, executed := [] }
  match result with
  | .error e => throw e
  | .ok () =>
    if program.trace.length ≠ n then
      throw (.undefinedBehavior "assert(current_program_model.get_trace().count() == n)")
    replay source (program.trace.map (·.executor))

/-- The calls of an exploration. -/
inductive CoordinatorCall
  | executeRunner (p : RunnerId)
  | returnToDepth (n : ℕ)

/-- The coordinator after a call, and the outcome of the call. -/
def CoordinatorCall.apply (call : CoordinatorCall) (c : Coordinator) :
    Except Failure Unit × Coordinator :=
  match call with
  | .executeRunner p => (McMini.executeRunner source p).run c
  | .returnToDepth n => (McMini.returnToDepth source n).run c

/-- The coordinator after an exploration. An exception which a call throws is caught. -/
def explore (c : Coordinator) (history : List CoordinatorCall) : Coordinator :=
  history.foldl (fun c call => (call.apply source c).2) c

end

end McMini
