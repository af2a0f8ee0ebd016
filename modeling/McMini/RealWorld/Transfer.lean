import McMini.Dpor.StackItem
import McMini.Model.Coordinator
import McMini.Record.Objects

/-!
# The transfer of a checkpoint

After a restart the template thread writes what was recorded into a FIFO, and McMini builds its
model from what it reads there. Both sides work with entries of one type. A queue of waiting
threads is a list in the memory of the target, so its nodes travel as entries of their own, before
the entry of their condition variable. The reader regroups them by the address of the condition
variable.

Threads are read into a vector first and become runners in the order of their ids. At last every
thread's next transition is looked up in its mailbox.
-/

namespace McMini

namespace Transfer

open Record

/-! ### What is sent -/

/-- `thread_state`. -/
structure ThreadRecord where
  pthreadDesc : Addr
  id : RunnerId
  status : ThreadStatus
  deriving DecidableEq, Repr

/-- `condition_variable_state`. Its queue is the one at the address `waitingThreads`. -/
structure CondState where
  status : ConditionVariableStatus
  interactingThread : RunnerId
  associatedMutex : Addr
  count : ℤ
  waitingThreads : Addr
  deriving DecidableEq, Repr

/-- `cv_waiters_queue_state`. -/
structure CvWaitersQueueState where
  cvLocation : Addr
  waitingId : RunnerId
  cvState : ConditionVariableStatus
  deriving DecidableEq, Repr

/-- The states of `MUTEX`, `SEMAPHORE` and `CONDITION_VARIABLE` entries. -/
inductive ObjectRecord
  | mutex (mutState : MutexRecord)
  | semaphore (semState : SemaphoreRecord)
  | conditionVariable (condState : CondState)
  deriving DecidableEq, Repr

/-- `::visible_object`. The location is read where the entry is of an object. -/
inductive RecordedObject
  | unknown
  | object (location : Addr) (state : ObjectRecord)
  | thread (thrdState : ThreadRecord)
  | cvWaitersQueue (waitingQueueState : CvWaitersQueueState)
  deriving DecidableEq, Repr

/-- `empty_visible_obj`. -/
def emptyVisibleObj : RecordedObject := .unknown

/-! ### The writer -/

section Writer

variable (queues : Addr → ThreadQueue)

/-- The entries for the nodes of a queue, from the front. -/
def waiterEntries (location : Addr) (queue : ThreadQueue) : List RecordedObject :=
  queue.map fun node => .cvWaitersQueue ⟨location, node.thread, node.threadCvState⟩

/-- What is written for an entry of the record list. Other types abort the process. -/
def writeEntry : RecordedObject → Option (List RecordedObject)
  | .object location (.conditionVariable r) =>
    some (waiterEntries location (queues r.waitingThreads) ++
      [.object location (.conditionVariable r)])
  | .object location state => some [.object location state]
  | .thread r => some [.thread r]
  | .unknown => none
  | .cvWaitersQueue _ => none

/-- `template_thread`, when McMini needs the state. -/
def templateThread : List RecordedObject → Option (List RecordedObject)
  | [] => some [emptyVisibleObj]
  | entry :: recList => do
    let written ← writeEntry queues entry
    let rest ← templateThread recList
    return written ++ rest

end Writer

/-! ### The reader -/

/-- `static_cast<objects::mutex::state>`: the enumerators have the same values. -/
def mutexState : MutexStatus → MutexState
  | .uninitialized => .uninitialized
  | .unlocked => .unlocked
  | .locked => .locked
  | .destroyed => .destroyed

/-- `static_cast<objects::semaphore::state>`. -/
def semaphoreState : SemaphoreStatus → SemaphoreState
  | .uninitialized => .uninitialized
  | .initialized => .initialized
  | .destroyed => .destroyed

/-- `static_cast<objects::condition_variable::state>`: `CV_PREWAITING` has the value of
`cv_transitional`. -/
def conditionVariableState : ConditionVariableStatus → ConditionVariableState
  | .uninitialized => .uninitialized
  | .initialized => .initialized
  | .waiting => .waiting
  | .signaled => .signaled
  | .prewaiting => .transitional
  | .destroyed => .destroyed

/-- `thread(thread_status)`. -/
def threadState : ThreadStatus → ThreadState
  | .alive => .running
  | .exited => .exited

/-- The threads waiting on each condition variable, in the order in which they were read.
An address which is not in the map has none. -/
abbrev CvWaitingThreads := Addr → List (RunnerId × ConditionVariableStatus)

def translateRecordedObjectToModel (cvWaitingThreads : CvWaitingThreads) (location : Addr) :
    ObjectRecord → VisibleObjectState
  | .mutex r => .mutex ⟨mutexState r.status, location, r.owner⟩
  | .semaphore r => .semaphore ⟨r.count, semaphoreState r.status⟩
  | .conditionVariable r =>
    .conditionVariable (.construct (conditionVariableState r.status) r.interactingThread
      r.associatedMutex r.count (cvWaitingThreads location))

def translateRecordedRunnerToModel (r : ThreadRecord) : Thread := ⟨threadState r.status⟩

/-- What the reader keeps of the entries which are not objects. -/
structure Received where
  recordedThreads : List ThreadRecord := []
  cvWaitingThreads : CvWaitingThreads := fun _ => []

/-- `cv_waiting_threads[cv_location].push_back(...)`. -/
def Received.pushWaiter (received : Received) (w : CvWaitersQueueState) : Received :=
  ⟨received.recordedThreads, Function.update received.cvWaitingThreads w.cvLocation
    (received.cvWaitingThreads w.cvLocation ++ [(w.waitingId, w.cvState)])⟩

/-- `recorded_threads.emplace_back(...)`. -/
def Received.pushThread (received : Received) (r : ThreadRecord) : Received :=
  ⟨received.recordedThreads ++ [r], received.cvWaitingThreads⟩

/-- Reads entries up to the end of the stream or to the empty one. -/
def readObjects : List RecordedObject → Received → CoordinatorM Received
  | [], received => return received
  | .unknown :: _, received => return received
  | .thread r :: stream, received => readObjects stream (received.pushThread r)
  | .cvWaitersQueue w :: stream, received => readObjects stream (received.pushWaiter w)
  | .object location state :: stream, received => do
    observeObject location
      (translateRecordedObjectToModel received.cvWaitingThreads location state)
    readObjects stream received

/-- The order in which the threads are sorted. -/
def ThreadRecord.Precedes (lhs rhs : ThreadRecord) : Prop := lhs.id ≤ rhs.id

instance : DecidableRel ThreadRecord.Precedes := fun lhs rhs =>
  inferInstanceAs (Decidable (lhs.id ≤ rhs.id))

/-- `observe_runner(handle, rs)`. This overload does not ask whether the address is known, and an
address which is known keeps its object. -/
def observeRecordedRunner (handle : Addr) (rs : Thread) : CoordinatorM Unit := do
  let c ← get
  let (s, result) := c.getStateSequence.addRunner rs
  let c := c.setStateSeq s
  match result with
  | .error e => set c; throw e
  | .ok newRunnerId =>
    let newObjid := (s.getObjidForRunnerAt s.representative newRunnerId).getD objidInvalid
    set { c with systemAddressMapping := c.insertAddress handle newObjid }

def observeRunners : List ThreadRecord → CoordinatorM Unit
  | [] => return ()
  | r :: recordedThreads => do
    observeRecordedRunner r.pthreadDesc (translateRecordedRunnerToModel r)
    observeRunners recordedThreads

/-- Builds the model from the stream. Returns the threads, sorted by their ids. -/
def restoreModel (stream : List RecordedObject) : CoordinatorM (List ThreadRecord) := do
  let received ← readObjects stream {}
  let recordedThreads := received.recordedThreads.insertionSort ThreadRecord.Precedes
  observeRunners recordedThreads
  return recordedThreads

/-! ### The pending transitions -/

section Pending

variable (mailboxes : RunnerId → MailboxContents)

def expectedCallbackMessage (type : ℕ) : String := "Expected a callback for " ++ toString type

/-- The next transition of a thread. The callback of `sem_destroy` returns a null pointer, which
is dereferenced. -/
def nextTransition (r : ThreadRecord) : CoordinatorM Transition := do
  match r.status with
  | .exited => return ⟨r.id, .threadExit⟩
  | .alive =>
    if r.id < maxTotalThreadsInProgram then
      match mailboxes r.id with
      | .unregistered type => throw (.runtimeError (expectedCallbackMessage type))
      | .semDestroy remoteSem =>
        requireObserved remoteSem "Attempting to wait on an uninitialized semaphore"
        throw (.undefinedBehavior "set_transition(nullptr)")
      | contents => callback r.id contents
    else throw (.undefinedBehavior "mailboxes[recorded_id]")

def observeRunnerTransition (t : Transition) : CoordinatorM Unit := do
  let c ← get
  set { c with currentProgramModel := c.currentProgramModel.setTransition t }

def insertedMessage : String :=
  "A callback inserted an object into the model, but all objects should have been available " ++
    "to it during record."

/-- The objects are counted when the callback has returned. -/
def observeTransitions : List ThreadRecord → CoordinatorM Unit
  | [] => return ()
  | r :: recordedThreads => do
    let next ← nextTransition mailboxes r
    let numObjectsBefore := (← get).getStateSequence.representative.count
    observeRunnerTransition next
    let numObjectsAfter := (← get).getStateSequence.representative.count
    if numObjectsBefore ≠ numObjectsAfter then throw (.runtimeError insertedMessage)
    observeTransitions recordedThreads

/-- `do_model_checking_from_dmtcp_ckpt_file`, up to the exploration. -/
def doModelCheckingFromDmtcpCkptFile (stream : List RecordedObject) : CoordinatorM Unit := do
  let recordedThreads ← restoreModel stream
  observeTransitions mailboxes recordedThreads

end Pending

/-- `detached_state()`. -/
def emptyDetachedState : DetachedState where
  visibleObjects := []
  runnerToObjMap := .empty
  keys_eq_range := rfl
  lookup_lt := fun h => nomatch h

/-- The coordinator with `program()`. -/
def unstarted : Coordinator := ⟨.ofState emptyDetachedState ∅, ∅, []⟩

end Transfer

end McMini
