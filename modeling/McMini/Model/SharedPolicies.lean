import McMini.Foundation.Memory
import McMini.Model.State

/-!
# Condition variables which share their policies

A condition variable does not contain its policy but points to it, and copying a condition
variable copies the pointer: the states of one condition variable in the different states of a
sequence may point to the same policy, whose methods change it in place. Here the policies live in
a memory, from which nothing is freed, and the condition variables of
`McMini/Objects/ConditionVariable.lean` are what these *stored* ones are when the pointer is
followed (`StoredConditionVariable.load`).

The transitions clone the policy and change the clone only, so each of the functions below
implements the function of the same name on condition variables with a policy of their own.
-/

namespace McMini

open Foundation MemoryM

/-- A pointer to a policy. -/
structure PolicyPtr where
  address : ℕ
  deriving DecidableEq, Repr

/-- The policies allocated so far. -/
abbrev PolicyMemory := Memory ConditionVariableArbitraryPolicy

/-- Computations over the policies, which may fail. -/
abbrev PolicyM := MemoryM Failure ConditionVariableArbitraryPolicy

namespace PolicyPtr

/-- Following a pointer which points to no policy has no defined behavior. -/
def dangling : Failure := .undefinedBehavior "a pointer to no policy"

def deref (p : PolicyPtr) : PolicyM ConditionVariableArbitraryPolicy := read dangling p.address

/-- A method which changes the policy in place. -/
def update (p : PolicyPtr)
    (f : ConditionVariableArbitraryPolicy → ConditionVariableArbitraryPolicy) : PolicyM Unit := do
  let policy ← p.deref
  write dangling p.address (f policy)

/-- `new ConditionVariableArbitraryPolicy(*this)`. -/
def clone (p : PolicyPtr) : PolicyM PolicyPtr := do
  let policy ← p.deref
  let address ← alloc policy
  return ⟨address⟩

def hasWaiters (p : PolicyPtr) : PolicyM Bool := do
  let policy ← p.deref
  return ConditionVariableArbitraryPolicy.hasWaiters policy

def threadCanExit (p : PolicyPtr) (tid : RunnerId) : PolicyM Bool := do
  let policy ← p.deref
  return policy.threadCanExit tid

def getThreadCvState (p : PolicyPtr) (tid : RunnerId) : PolicyM ConditionVariableStatus := do
  let policy ← p.deref
  return ConditionVariableArbitraryPolicy.getThreadCvState policy tid

def returnWaitQueue (p : PolicyPtr) : PolicyM (List RunnerId) := do
  let policy ← p.deref
  return policy.waitQueue

def addToWakeGroups (p : PolicyPtr) (threads : List RunnerId) : PolicyM Unit :=
  p.update (ConditionVariableArbitraryPolicy.addToWakeGroups · threads)

def updateThreadCvState (p : PolicyPtr) (tid : RunnerId) (state : ConditionVariableStatus) :
    PolicyM Unit :=
  p.update (ConditionVariableArbitraryPolicy.updateThreadCvState · tid state)

def addWaiterWithState (p : PolicyPtr) (tid : RunnerId) (state : ConditionVariableStatus) :
    PolicyM Unit :=
  p.update (ConditionVariableArbitraryPolicy.addWaiterWithState · tid state)

def receiveBroadcastMessage (p : PolicyPtr) : PolicyM Unit :=
  p.update ConditionVariableSingleGroupPolicy.receiveBroadcastMessage

def wakeThread (p : PolicyPtr) (tid : RunnerId) : PolicyM Unit := do
  let policy ← p.deref
  match policy.wakeThread tid with
  | none => throw (.undefinedBehavior "wake_thread: no wake group contains the thread")
  | some policy => write dangling p.address policy

end PolicyPtr

/-- A condition variable as it is stored, with a pointer to its policy. -/
structure StoredConditionVariable where
  currentState : ConditionVariableState
  numRemainingSpuriousWakeups : ℕ
  runningThread : RunnerId
  associatedMutex : Addr
  waitingCount : ℤ
  policy : PolicyPtr
  deriving DecidableEq

/-- `ConditionVariableArbitraryPolicy()`: no thread waits. -/
def emptyPolicy : ConditionVariableArbitraryPolicy := {}

namespace StoredConditionVariable

/-- The constructor makes a fresh policy when it is given none. -/
def construct (s : ConditionVariableState) (tid : RunnerId := ridInvalid) (mutex : Addr := 0)
    (count : ℤ := 0) : PolicyM StoredConditionVariable := do
  let address ← alloc emptyPolicy
  return ⟨s, 0, tid, mutex, count, ⟨address⟩⟩

def setPolicy (cv : StoredConditionVariable) (p : PolicyPtr) : StoredConditionVariable :=
  { cv with policy := p }

def setAssociatedMutex (cv : StoredConditionVariable) (mutex : Addr) : StoredConditionVariable :=
  { cv with associatedMutex := mutex }

def isUninitialized (cv : StoredConditionVariable) : Bool := cv.currentState == .uninitialized

def isDestroyed (cv : StoredConditionVariable) : Bool := cv.currentState == .destroyed

def hasWaiters (cv : StoredConditionVariable) : PolicyM Bool := cv.policy.hasWaiters

def waiterCanExit (cv : StoredConditionVariable) (tid : RunnerId) : PolicyM Bool := do
  let canExit ← cv.policy.threadCanExit tid
  return decide (0 < cv.numRemainingSpuriousWakeups) || canExit

/-- The queued threads whose recorded status is `CV_WAITING`, in queue order. -/
def waitingThreads (cv : StoredConditionVariable) : PolicyM (List RunnerId) := do
  let policy ← cv.policy.deref
  return policy.waitQueue.filter fun tid =>
    ConditionVariableArbitraryPolicy.getThreadCvState policy tid == .waiting

/-- `cv_waiting` while some thread is queued, `cv_signaled` once none is. -/
def stateForQueue (queue : List RunnerId) : ConditionVariableState :=
  if 0 < queue.length then .waiting else .signaled

/-- The object stored when `executor` falls asleep with the mutex at `location`. -/
def enqueueThread (cv : StoredConditionVariable) (executor : RunnerId) (location : Addr) :
    PolicyM StoredConditionVariable := do
  let newPolicy ← cv.policy.clone
  let currentState ← newPolicy.getThreadCvState executor
  if currentState == .prewaiting then newPolicy.updateThreadCvState executor .waiting
  newPolicy.addWaiterWithState executor .waiting
  let queue ← newPolicy.returnWaitQueue
  let newCv ← construct .waiting executor location queue.length
  return newCv.setPolicy newPolicy

/-- The object stored by a signal which finds a queued thread. -/
def signal (cv : StoredConditionVariable) : PolicyM StoredConditionVariable := do
  let waitingThreads ← cv.waitingThreads
  let newPolicy ← cv.policy.clone
  newPolicy.addToWakeGroups waitingThreads
  let queue ← newPolicy.returnWaitQueue
  let newCv ← construct (stateForQueue queue) ridInvalid 0 queue.length
  return (newCv.setPolicy newPolicy).setAssociatedMutex cv.associatedMutex

/-- The object stored by a broadcast which finds a queued thread. -/
def broadcast (cv : StoredConditionVariable) (executor : RunnerId) :
    PolicyM StoredConditionVariable := do
  let waitingThreads ← cv.waitingThreads
  let newPolicy ← cv.policy.clone
  newPolicy.addToWakeGroups waitingThreads
  newPolicy.receiveBroadcastMessage
  let queue ← newPolicy.returnWaitQueue
  let newCv ← construct (stateForQueue queue) executor cv.associatedMutex queue.length
  return newCv.setPolicy newPolicy

/-- The object stored when `executor` wakes and takes the mutex at `location` again. -/
def wait (cv : StoredConditionVariable) (executor : RunnerId) (location : Addr) :
    PolicyM StoredConditionVariable := do
  let newPolicy ← cv.policy.clone
  newPolicy.wakeThread executor
  let queue ← newPolicy.returnWaitQueue
  let newCv ← construct (stateForQueue queue) executor location queue.length
  return newCv.setPolicy newPolicy

/-! ### Following the pointer -/

/-- What the condition variable is when its policy is read from the memory. -/
def load (cells : PolicyMemory) (cv : StoredConditionVariable) : ConditionVariable :=
  { currentState := cv.currentState
    numRemainingSpuriousWakeups := cv.numRemainingSpuriousWakeups
    runningThread := cv.runningThread
    associatedMutex := cv.associatedMutex
    waitingCount := cv.waitingCount
    policy := cells[cv.policy.address]?.getD emptyPolicy }

/-- The pointer is to a policy, and following it gives `v`. -/
structure Reads (cells : PolicyMemory) (cv : StoredConditionVariable) (v : ConditionVariable) :
    Prop where
  policy : cells[cv.policy.address]? = some v.policy
  load : cv.load cells = v

variable {cells cells' : PolicyMemory} {cv : StoredConditionVariable} {v : ConditionVariable}
  {executor : RunnerId} {location : Addr}

/-- Allocating policies changes no condition variable. -/
theorem Reads.mono (h : cv.Reads cells v) (hcells : cells <+: cells') : cv.Reads cells' v := by
  have hpolicy : cells'[cv.policy.address]? = some v.policy := by
    obtain ⟨hlt, hv⟩ := List.getElem?_eq_some_iff.mp h.policy
    rw [← hv]
    exact List.prefix_iff_getElem?.mp hcells _ hlt
  refine ⟨hpolicy, ?_⟩
  rw [← h.load, StoredConditionVariable.load, StoredConditionVariable.load, hpolicy, h.policy]

end StoredConditionVariable

/-! ### Changing the clone -/

namespace PolicyPtr

variable {cells rest : PolicyMemory} {p : PolicyPtr} {tid : RunnerId}
  {policy : ConditionVariableArbitraryPolicy}

theorem run_deref (h : cells[p.address]? = some policy) :
    p.deref.run cells = (.ok policy, cells) := run_read h

theorem run_clone (h : cells[p.address]? = some policy) :
    p.clone.run cells = (.ok ⟨cells.length⟩, cells ++ [policy]) := by
  rw [clone, run_bind_of_ok (run_deref h), run_bind_of_ok (run_alloc policy), run_pure]

theorem run_getThreadCvState (h : cells[p.address]? = some policy) :
    (p.getThreadCvState tid).run cells =
      (.ok (ConditionVariableArbitraryPolicy.getThreadCvState policy tid), cells) := by
  rw [getThreadCvState, run_bind_of_ok (run_deref h), run_pure]

theorem run_returnWaitQueue (h : cells[p.address]? = some policy) :
    p.returnWaitQueue.run cells = (.ok policy.waitQueue, cells) := by
  rw [returnWaitQueue, run_bind_of_ok (run_deref h), run_pure]

theorem getElem?_append_cons : (cells ++ policy :: rest)[cells.length]? = some policy := by simp

/-- A method changes its own policy, here the one allocated after `cells`. -/
theorem run_update (f : ConditionVariableArbitraryPolicy → ConditionVariableArbitraryPolicy) :
    (update ⟨cells.length⟩ f).run (cells ++ policy :: rest) =
      (.ok (), cells ++ f policy :: rest) := by
  rw [update, run_bind_of_ok (run_deref getElem?_append_cons)]
  exact run_write_append _ _ _

theorem run_wakeThread_of_some {policy' : ConditionVariableArbitraryPolicy}
    (h : policy.wakeThread tid = some policy') :
    (wakeThread ⟨cells.length⟩ tid).run (cells ++ policy :: rest) =
      (.ok (), cells ++ policy' :: rest) := by
  rw [wakeThread, run_bind_of_ok (run_deref getElem?_append_cons)]
  simp only [h]
  exact run_write_append _ _ _

theorem run_wakeThread_of_none (h : policy.wakeThread tid = none) :
    (wakeThread ⟨cells.length⟩ tid).run (cells ++ policy :: rest) =
      (.error (.undefinedBehavior "wake_thread: no wake group contains the thread"),
        cells ++ policy :: rest) := by
  rw [wakeThread, run_bind_of_ok (run_deref getElem?_append_cons)]
  simp only [h, run_throw]

end PolicyPtr

namespace StoredConditionVariable

open PolicyPtr

variable {cells cells' : PolicyMemory} {cv newCv : StoredConditionVariable}
  {v : ConditionVariable} {executor : RunnerId} {location : Addr}

theorem run_construct {s : ConditionVariableState} {tid : RunnerId} {mutex : Addr} {count : ℤ} :
    (construct s tid mutex count).run cells =
      (.ok ⟨s, 0, tid, mutex, count, ⟨cells.length⟩⟩, cells ++ [emptyPolicy]) := rfl

/-- Every condition variable made by the constructor has a policy without threads. -/
theorem implements_construct {s : ConditionVariableState} {tid : RunnerId} {mutex : Addr}
    {count : ℤ} :
    Implements Reads cells (construct s tid mutex count)
      (pure ⟨s, 0, tid, mutex, count, emptyPolicy⟩) := by
  refine implements_of_run run_construct (List.prefix_append _ _) (.ok ⟨?_, ?_⟩)
  · simp
  · simp [StoredConditionVariable.load]

/-- A condition variable whose policy was allocated after `cells`. -/
theorem reads_append {policy fresh : ConditionVariableArbitraryPolicy}
    (hpolicy : newCv.policy = ⟨cells.length⟩) :
    newCv.Reads (cells ++ [policy] ++ [fresh])
      ⟨newCv.currentState, newCv.numRemainingSpuriousWakeups, newCv.runningThread,
        newCv.associatedMutex, newCv.waitingCount, policy⟩ := by
  constructor
  · simp [hpolicy]
  · simp [StoredConditionVariable.load, hpolicy]

theorem run_hasWaiters (h : cv.Reads cells v) :
    cv.hasWaiters.run cells = (.ok v.hasWaiters, cells) := by
  rw [hasWaiters, PolicyPtr.hasWaiters, run_bind_of_ok (run_deref h.policy)]
  rfl

theorem run_waiterCanExit (h : cv.Reads cells v) :
    (cv.waiterCanExit executor).run cells = (.ok (v.waiterCanExit executor), cells) := by
  have hrun : (cv.policy.threadCanExit executor).run cells =
      (.ok (v.policy.threadCanExit executor), cells) := by
    rw [PolicyPtr.threadCanExit, run_bind_of_ok (run_deref h.policy)]
    rfl
  have hspurious : v.numRemainingSpuriousWakeups = cv.numRemainingSpuriousWakeups := by
    rw [← h.load]
    rfl
  rw [waiterCanExit, run_bind_of_ok hrun, run_pure, ConditionVariable.waiterCanExit, hspurious]

theorem run_waitingThreads (h : cv.Reads cells v) :
    cv.waitingThreads.run cells = (.ok v.waitingThreads, cells) := by
  rw [waitingThreads, run_bind_of_ok (run_deref h.policy)]
  rfl

/-- How each of the functions ends: the new object is built around the changed clone. -/
theorem run_replace {policy : ConditionVariableArbitraryPolicy}
    (state : List RunnerId → ConditionVariableState) (tid : RunnerId) (mutex : Addr)
    (finish : StoredConditionVariable → StoredConditionVariable) :
    (do let queue ← returnWaitQueue ⟨cells.length⟩
        let newCv ← construct (state queue) tid mutex queue.length
        pure (finish newCv)).run (cells ++ [policy]) =
      (.ok (finish ⟨state policy.waitQueue, 0, tid, mutex, policy.waitQueue.length,
          ⟨(cells ++ [policy]).length⟩⟩), cells ++ [policy] ++ [emptyPolicy]) := by
  rw [run_bind_of_ok (run_returnWaitQueue getElem?_append_cons), run_bind_of_ok run_construct,
    run_pure]

theorem implements_enqueueThread (h : cv.Reads cells v) :
    Implements Reads cells (cv.enqueueThread executor location)
      (pure (v.enqueueThread executor location)) := by
  have hrun : (cv.enqueueThread executor location).run cells =
      (.ok ⟨.waiting, 0, executor, location,
          (v.enqueueThread executor location).policy.waitQueue.length, ⟨cells.length⟩⟩,
        cells ++ [(v.enqueueThread executor location).policy] ++ [emptyPolicy]) := by
    have hend : ∀ updated : ConditionVariableArbitraryPolicy,
        (do addWaiterWithState ⟨cells.length⟩ executor .waiting
            let queue ← returnWaitQueue ⟨cells.length⟩
            let newCv ← construct .waiting executor location queue.length
            pure (newCv.setPolicy ⟨cells.length⟩)).run (cells ++ [updated]) = _ := fun updated =>
      (run_bind_of_ok (run_update _) _).trans (run_replace (fun _ => .waiting) executor location _)
    rw [enqueueThread, run_bind_of_ok (run_clone h.policy),
      run_bind_of_ok (run_getThreadCvState getElem?_append_cons), ConditionVariable.enqueueThread]
    by_cases hpre : ConditionVariableArbitraryPolicy.getThreadCvState v.policy executor ==
        .prewaiting
    · rw [if_pos hpre, if_pos hpre]
      exact (run_bind_of_ok (run_update _) _).trans (hend _)
    · rw [if_neg hpre, if_neg hpre]
      exact hend v.policy
  exact implements_of_run hrun ((List.prefix_append _ _).trans (List.prefix_append _ _))
    (.ok (reads_append rfl))

/-- The clone of the policy, with the sleeping threads in one more wake group. -/
theorem run_signaled (h : cv.Reads cells v) (f : PolicyPtr → PolicyM StoredConditionVariable) :
    (do let waitingThreads ← cv.waitingThreads
        let newPolicy ← cv.policy.clone
        newPolicy.addToWakeGroups waitingThreads
        f newPolicy).run cells =
      (f ⟨cells.length⟩).run (cells ++
        [ConditionVariableArbitraryPolicy.addToWakeGroups v.policy v.waitingThreads]) := by
  rw [run_bind_of_ok (run_waitingThreads h), run_bind_of_ok (run_clone h.policy)]
  exact run_bind_of_ok (run_update _) _

theorem implements_signal (h : cv.Reads cells v) :
    Implements Reads cells cv.signal (pure v.signal) := by
  have hmutex : v.associatedMutex = cv.associatedMutex := by
    rw [← h.load]
    rfl
  have hrun := (run_signaled h fun newPolicy => do
    let queue ← newPolicy.returnWaitQueue
    let newCv ← construct (stateForQueue queue) ridInvalid 0 queue.length
    return (newCv.setPolicy newPolicy).setAssociatedMutex cv.associatedMutex).trans
      (run_replace stateForQueue ridInvalid 0
        fun newCv => (newCv.setPolicy ⟨cells.length⟩).setAssociatedMutex cv.associatedMutex)
  refine implements_of_run hrun ((List.prefix_append _ _).trans (List.prefix_append _ _))
    (.ok ?_)
  rw [ConditionVariable.signal, hmutex]
  exact reads_append rfl

theorem implements_broadcast (h : cv.Reads cells v) :
    Implements Reads cells (cv.broadcast executor) (pure (v.broadcast executor)) := by
  have hmutex : v.associatedMutex = cv.associatedMutex := by
    rw [← h.load]
    rfl
  have hrun : (cv.broadcast executor).run cells = _ :=
    ((run_signaled h _).trans (run_bind_of_ok (run_update _) _)).trans (run_replace _ _ _ _)
  refine implements_of_run hrun ((List.prefix_append _ _).trans (List.prefix_append _ _))
    (.ok ?_)
  rw [ConditionVariable.broadcast, hmutex]
  exact reads_append rfl

/-- Waking a thread which no wake group contains fails in both. -/
theorem implements_wait (h : cv.Reads cells v) :
    Implements Reads cells (cv.wait executor location)
      ((v.wait executor location).elim
        (.error (.undefinedBehavior "wake_thread: no wake group contains the thread")) .ok) := by
  cases hwake : v.policy.wakeThread executor with
  | none =>
    have hrun : (cv.wait executor location).run cells = _ :=
      (run_bind_of_ok (run_clone h.policy) _).trans
        (run_bind_of_error (run_wakeThread_of_none hwake) _)
    rw [ConditionVariable.wait, hwake]
    exact implements_of_run hrun (List.prefix_append _ _) (.error _)
  | some policy =>
    have hrun : (cv.wait executor location).run cells = _ :=
      ((run_bind_of_ok (run_clone h.policy) _).trans
        (run_bind_of_ok (run_wakeThread_of_some hwake) _)).trans (run_replace _ _ _ _)
    rw [ConditionVariable.wait, hwake]
    exact implements_of_run hrun ((List.prefix_append _ _).trans (List.prefix_append _ _))
      (.ok (reads_append rfl))

end StoredConditionVariable

end McMini
