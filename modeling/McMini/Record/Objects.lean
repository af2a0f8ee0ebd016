import McMini.Objects.ConditionVariable

/-!
# Recorded objects

While the target runs under the recorder, the library keeps a record of each object the target
has used: what `dmtcp_restart` needs to know to put the threads under the control of the model
checker.
-/

namespace McMini.Record

/-- `mutex_status`. -/
inductive MutexStatus
  | uninitialized | unlocked | locked | destroyed
  deriving DecidableEq, Repr

/-- `mutex_state`: a mutex, and while it is locked, the thread which holds it. -/
structure MutexRecord where
  status : MutexStatus
  owner : RunnerId
  deriving DecidableEq, Repr

/-- `semaphore_status`. -/
inductive SemaphoreStatus
  | uninitialized | initialized | destroyed
  deriving DecidableEq, Repr

/-- `semaphore_state`. -/
structure SemaphoreRecord where
  count : BitVec 32
  status : SemaphoreStatus
  deriving DecidableEq, Repr

/-- `thread_status`. -/
inductive ThreadStatus
  | alive | exited
  deriving DecidableEq, Repr

/-! ### The queue of waiting threads -/

/-- `thread_queue_node`. -/
structure ThreadQueueNode where
  thread : RunnerId
  threadCvState : ConditionVariableStatus
  deriving DecidableEq, Repr

/-- `thread_queue`, from the front. -/
abbrev ThreadQueue := List ThreadQueueNode

namespace ThreadQueue

variable (queue : ThreadQueue) (thread : RunnerId)

/-- The threads in the queue, from the front. -/
def threads : List RunnerId := queue.map (·.thread)

def enqueueThread (cvState : ConditionVariableStatus) : ThreadQueue := queue ++ [⟨thread, cvState⟩]

def isInThreadQueue : Bool := queue.any (·.thread = thread)

/-- The process exits where the thread is not in the queue. -/
def getThreadCvState : Option ConditionVariableStatus :=
  (queue.find? (·.thread = thread)).map (·.threadCvState)

/-- Its callers have found the thread in the queue. -/
def updateThreadCvState (newState : ConditionVariableStatus) : ThreadQueue :=
  queue.modify (queue.findIdx (·.thread = thread)) fun node => { node with threadCvState := newState }

/-- The first thread whose state is `CV_WAITING`. -/
def getWaitingThreadNode : RunnerId :=
  ((queue.find? (·.threadCvState = .waiting)).map (·.thread)).getD ridInvalid

def removeThreadFromQueue : ThreadQueue := queue.eraseP (·.thread = thread)

variable {queue thread} {newState : ConditionVariableStatus} {t : RunnerId}

theorem mem_threads : t ∈ queue.threads ↔ ∃ node ∈ queue, node.thread = t := List.mem_map

theorem isInThreadQueue_iff : queue.isInThreadQueue thread = true ↔ thread ∈ queue.threads := by
  simp [isInThreadQueue, threads]

@[simp]
theorem threads_enqueueThread :
    (queue.enqueueThread thread newState).threads = queue.threads ++ [thread] := by
  simp [enqueueThread, threads]

/-- Updating a state moves no thread. -/
@[simp]
theorem threads_updateThreadCvState :
    (queue.updateThreadCvState thread newState).threads = queue.threads := by
  unfold updateThreadCvState threads
  generalize queue.findIdx (·.thread = thread) = i
  induction queue generalizing i with
  | nil => simp
  | cons node queue ih => cases i <;> simp_all

@[simp]
theorem threads_removeThreadFromQueue :
    (queue.removeThreadFromQueue thread).threads = queue.threads.erase thread := by
  unfold removeThreadFromQueue threads
  induction queue with
  | nil => rfl
  | cons node queue ih =>
    by_cases h : node.thread = thread
    · simp [h]
    · rw [List.eraseP_cons_of_neg (by simpa using h), List.map_cons, ih, List.map_cons,
        List.erase_cons_tail (by simpa using h)]

/-- A state which is found is that of the first node of the thread. -/
theorem exists_of_getThreadCvState {cvState : ConditionVariableStatus}
    (h : queue.getThreadCvState thread = some cvState) : ⟨thread, cvState⟩ ∈ queue := by
  obtain ⟨node, hnode, rfl⟩ := Option.map_eq_some_iff.mp h
  have hmem := List.mem_of_find?_eq_some hnode
  have hthread : node.thread = thread := by simpa using List.find?_some hnode
  rwa [← hthread]

end ThreadQueue

/-! ### Condition variables -/

/-- `condition_variable_state`. -/
structure ConditionVariableRecord where
  status : ConditionVariableStatus := .initialized
  interactingThread : RunnerId
  associatedMutex : Addr
  count : ℤ := 0
  waitingThreads : ThreadQueue := []
  prevWaitingCount : ℤ := 0
  lostWakeups : ℤ := 0
  deriving DecidableEq, Repr

namespace ConditionVariableRecord

variable (r : ConditionVariableRecord) (thread : RunnerId) (mutex : Addr)

/-- `mc_pthread_cond_wait`, before the wait. -/
def enterWait : ConditionVariableRecord :=
  { r with
    interactingThread := thread
    waitingThreads :=
      if r.waitingThreads.isInThreadQueue thread then r.waitingThreads
      else r.waitingThreads.enqueueThread thread .prewaiting
    associatedMutex := mutex
    count := r.count + 1 }

/-- `mc_pthread_cond_wait`, when the wait has returned `0`. -/
def leaveWait : Option ConditionVariableRecord :=
  (r.waitingThreads.getThreadCvState thread).map fun cvState =>
    if cvState = .signaled then
      { r with
        waitingThreads := r.waitingThreads.removeThreadFromQueue thread
        count := r.count - 1 }
    else { r with waitingThreads := r.waitingThreads.updateThreadCvState thread .waiting }

/-- `mc_pthread_cond_signal`, before the signal. -/
def beforeSignal : ConditionVariableRecord :=
  { r with prevWaitingCount := r.waitingThreads.countP (·.threadCvState = .waiting) }

/-- `mc_pthread_cond_signal`, when the signal has been sent. -/
def afterSignal : ConditionVariableRecord :=
  let waitingThread := r.waitingThreads.getWaitingThreadNode
  let waitingThreads :=
    if !r.waitingThreads.isEmpty ∧ waitingThread ≠ ridInvalid then
      r.waitingThreads.updateThreadCvState waitingThread .signaled
    else r.waitingThreads
  let anyThreadSignaled := waitingThreads.any (·.threadCvState = .signaled)
  { r with
    waitingThreads
    lostWakeups :=
      if !anyThreadSignaled ∧ 0 < r.prevWaitingCount then r.lostWakeups + 1 else r.lostWakeups }

/-- `mc_pthread_cond_broadcast`, when the broadcast has been sent. -/
def afterBroadcast : ConditionVariableRecord :=
  { r with
    waitingThreads := r.waitingThreads.foldl
      (fun queue node =>
        if node.threadCvState = .waiting then queue.updateThreadCvState node.thread .signaled
        else queue)
      r.waitingThreads }

end ConditionVariableRecord

end McMini.Record
