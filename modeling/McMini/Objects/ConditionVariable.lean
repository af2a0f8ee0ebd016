import McMini.Objects.Basic

/-!
# Condition variables and their wake-up policy

A condition variable carries a policy, a state machine which decides which of the
threads sleeping on it may wake. The policy class is built in three layers, kept here as
three structures:

* `ConditionVariableDefaultPolicy`: the **wake groups**, each a set of threads of which
  exactly one may consume one signal, and the threads around at the last broadcast, each
  of which may leave whatever happens next.
* `ConditionVariableSingleGroupPolicy`: in addition the queue of sleeping threads and
  the recorded status of each.
* `ConditionVariableArbitraryPolicy`: the policy in use, which forms a wake group of
  every thread asleep when a signal arrives.

Policies are cloned before they are changed, so a policy is a plain value.
The functions `enqueueThread`, `signal`, `broadcast` and `wait` compute the replacement
object which the transition of that name stores.
-/

namespace McMini

/-- The recorded status of a condition variable, or of one thread waiting on it
(`condition_variable_status`). -/
inductive ConditionVariableStatus
  | uninitialized | initialized | waiting | signaled | prewaiting | destroyed
  deriving DecidableEq, Repr

/-- A set of threads eligible to consume one signal, in queue order. -/
abbrev WakeGroup := List RunnerId

/-- Removes the given thread from the group. -/
def WakeGroup.removeCandidateThread (wg : WakeGroup) (tid : RunnerId) : WakeGroup :=
  wg.filter (· ≠ tid)

@[simp]
theorem WakeGroup.mem_removeCandidateThread {wg : WakeGroup} {tid t : RunnerId} :
    t ∈ WakeGroup.removeCandidateThread wg tid ↔ t ∈ wg ∧ t ≠ tid := by
  simp [WakeGroup.removeCandidateThread]

/-! ### The default policy -/

/-- Wake groups, oldest first, and the threads released by a broadcast. -/
structure ConditionVariableDefaultPolicy where
  broadcastEligibleThreads : Finset RunnerId := ∅
  wakeGroups : List WakeGroup := []
  deriving DecidableEq

namespace ConditionVariableDefaultPolicy

/-- Every thread of a wake group becomes eligible; no group is left. -/
def receiveBroadcastMessage (p : ConditionVariableDefaultPolicy) :
    ConditionVariableDefaultPolicy where
  broadcastEligibleThreads := p.broadcastEligibleThreads ∪ p.wakeGroups.flatten.toFinset
  wakeGroups := []

/-- A thread can leave when it was around at a broadcast or is in some wake group. -/
def threadCanExit (p : ConditionVariableDefaultPolicy) (tid : RunnerId) : Bool :=
  decide (tid ∈ p.broadcastEligibleThreads) || p.wakeGroups.any fun wg => wg.contains tid

/-- A thread released by a broadcast uses up that release; otherwise it consumes the
**first** wake group it is in. Either way it is removed from every other group. The
result is `none` where the assertion that some group contains the thread fails. -/
def wakeThread (p : ConditionVariableDefaultPolicy) (tid : RunnerId) :
    Option ConditionVariableDefaultPolicy :=
  if tid ∈ p.broadcastEligibleThreads then
    some
      { broadcastEligibleThreads := p.broadcastEligibleThreads.erase tid
        wakeGroups := p.wakeGroups.map (·.removeCandidateThread tid) }
  else if p.wakeGroups.any fun wg => wg.contains tid then
    some
      { broadcastEligibleThreads := p.broadcastEligibleThreads
        wakeGroups := (p.wakeGroups.eraseP fun wg => wg.contains tid).map
          (·.removeCandidateThread tid) }
  else none

theorem threadCanExit_iff {p : ConditionVariableDefaultPolicy} {tid : RunnerId} :
    p.threadCanExit tid = true ↔
      tid ∈ p.broadcastEligibleThreads ∨ ∃ wg ∈ p.wakeGroups, tid ∈ wg := by
  simp [threadCanExit]

/-- Waking is defined exactly for the threads which can leave. -/
theorem wakeThread_isSome_iff {p : ConditionVariableDefaultPolicy} {tid : RunnerId} :
    (p.wakeThread tid).isSome = true ↔ p.threadCanExit tid = true := by
  unfold wakeThread threadCanExit
  split_ifs with h1 h2 <;> simp_all

end ConditionVariableDefaultPolicy

/-! ### The queue of sleeping threads -/

/-- The default policy together with the queue of sleeping threads, front first, and the
status recorded for each thread. -/
structure ConditionVariableSingleGroupPolicy extends ConditionVariableDefaultPolicy where
  waitQueue : List RunnerId := []
  threadsWithStates : Finmap fun _ : RunnerId => ConditionVariableStatus := ∅
  deriving DecidableEq

namespace ConditionVariableSingleGroupPolicy

/-- Every sleeping thread becomes eligible as well, and the queue is emptied. -/
def receiveBroadcastMessage (p : ConditionVariableSingleGroupPolicy) :
    ConditionVariableSingleGroupPolicy :=
  let d := p.toConditionVariableDefaultPolicy.receiveBroadcastMessage
  { p with
    toConditionVariableDefaultPolicy :=
      { d with broadcastEligibleThreads := d.broadcastEligibleThreads ∪ p.waitQueue.toFinset }
    waitQueue := [] }

/-- Waking a thread also removes it from the queue, if it is still there. -/
def wakeThread (p : ConditionVariableSingleGroupPolicy) (tid : RunnerId) :
    Option ConditionVariableSingleGroupPolicy :=
  (p.toConditionVariableDefaultPolicy.wakeThread tid).map fun d =>
    { p with toConditionVariableDefaultPolicy := d, waitQueue := p.waitQueue.erase tid }

def addWaiter (p : ConditionVariableSingleGroupPolicy) (tid : RunnerId) :
    ConditionVariableSingleGroupPolicy :=
  { p with waitQueue := p.waitQueue ++ [tid] }

end ConditionVariableSingleGroupPolicy

/-! ### The policy in use -/

/-- The policy every condition variable is built with. -/
abbrev ConditionVariableArbitraryPolicy := ConditionVariableSingleGroupPolicy

namespace ConditionVariableArbitraryPolicy

def hasWaiters (p : ConditionVariableArbitraryPolicy) : Bool := !p.waitQueue.isEmpty

def addToWakeGroups (p : ConditionVariableArbitraryPolicy) (threads : List RunnerId) :
    ConditionVariableArbitraryPolicy :=
  if threads.isEmpty then p else { p with wakeGroups := p.wakeGroups ++ [threads] }

/-- The status recorded for a thread, `CV_UNINITIALIZED` where none is. -/
def getThreadCvState (p : ConditionVariableArbitraryPolicy) (tid : RunnerId) :
    ConditionVariableStatus :=
  (p.threadsWithStates.lookup tid).getD .uninitialized

def updateThreadCvState (p : ConditionVariableArbitraryPolicy) (tid : RunnerId)
    (state : ConditionVariableStatus) : ConditionVariableArbitraryPolicy :=
  { p with threadsWithStates := p.threadsWithStates.insert tid state }

def addWaiterWithState (p : ConditionVariableArbitraryPolicy) (tid : RunnerId)
    (state : ConditionVariableStatus) : ConditionVariableArbitraryPolicy :=
  updateThreadCvState (p.addWaiter tid) tid state

end ConditionVariableArbitraryPolicy

/-! ### Condition variables -/

/-- The states of a condition variable (`condition_variable::state`). -/
inductive ConditionVariableState
  | uninitialized | initialized | waiting | signaled | transitional | destroyed
  deriving DecidableEq, Repr

/-- A condition variable. The warnings about lost wake-ups are printed only, so the
counters behind them are not part of the state. -/
structure ConditionVariable where
  currentState : ConditionVariableState := .uninitialized
  numRemainingSpuriousWakeups : ℕ := 0
  runningThread : RunnerId := ridInvalid
  associatedMutex : Addr := 0
  waitingCount : ℤ := 0
  policy : ConditionVariableArbitraryPolicy := {}
  deriving DecidableEq

namespace ConditionVariable

open ConditionVariableArbitraryPolicy

/-- The constructor which takes recorded thread states. Recorded sleepers join the queue
in order; the threads recorded as signaled form **one** wake group. -/
def construct (s : ConditionVariableState) (tid : RunnerId) (mutex : Addr) (count : ℤ)
    (threadStates : List (RunnerId × ConditionVariableStatus)) : ConditionVariable :=
  let queued := threadStates.filter fun ts => ts.2 == .prewaiting || ts.2 == .waiting
  let policy := queued.foldl (fun p ts => addWaiterWithState p ts.1 ts.2) {}
  let signaledThreads := (threadStates.filter fun ts => ts.2 == .signaled).map Prod.fst
  { currentState := s
    runningThread := tid
    associatedMutex := mutex
    waitingCount := count
    policy := addToWakeGroups policy signaledThreads }

def isUninitialized (cv : ConditionVariable) : Bool := cv.currentState == .uninitialized

def isDestroyed (cv : ConditionVariable) : Bool := cv.currentState == .destroyed

def hasWaiters (cv : ConditionVariable) : Bool :=
  ConditionVariableArbitraryPolicy.hasWaiters cv.policy

def waiterCanExit (cv : ConditionVariable) (tid : RunnerId) : Bool :=
  decide (0 < cv.numRemainingSpuriousWakeups) || cv.policy.threadCanExit tid

/-- The queued threads whose recorded status is `CV_WAITING`, in queue order. -/
def waitingThreads (cv : ConditionVariable) : List RunnerId :=
  cv.policy.waitQueue.filter fun tid => getThreadCvState cv.policy tid == .waiting

/-- `cv_waiting` while some thread is queued, `cv_signaled` once none is. -/
def stateForQueue (p : ConditionVariableArbitraryPolicy) : ConditionVariableState :=
  if 0 < p.waitQueue.length then .waiting else .signaled

/-- The object stored when `executor` falls asleep with the mutex at `location`. -/
def enqueueThread (cv : ConditionVariable) (executor : RunnerId) (location : Addr) :
    ConditionVariable :=
  let updated :=
    if getThreadCvState cv.policy executor == .prewaiting then
      updateThreadCvState cv.policy executor .waiting
    else cv.policy
  let newPolicy := addWaiterWithState updated executor .waiting
  { currentState := .waiting
    runningThread := executor
    associatedMutex := location
    waitingCount := newPolicy.waitQueue.length
    policy := newPolicy }

/-- The object stored by a signal which finds a queued thread. -/
def signal (cv : ConditionVariable) : ConditionVariable :=
  let newPolicy := addToWakeGroups cv.policy cv.waitingThreads
  { currentState := stateForQueue newPolicy
    runningThread := ridInvalid
    associatedMutex := cv.associatedMutex
    waitingCount := newPolicy.waitQueue.length
    policy := newPolicy }

/-- The object stored by a broadcast which finds a queued thread. -/
def broadcast (cv : ConditionVariable) (executor : RunnerId) : ConditionVariable :=
  let newPolicy := (addToWakeGroups cv.policy cv.waitingThreads).receiveBroadcastMessage
  { currentState := stateForQueue newPolicy
    runningThread := executor
    associatedMutex := cv.associatedMutex
    waitingCount := newPolicy.waitQueue.length
    policy := newPolicy }

/-- The object stored when `executor` wakes and takes the mutex at `location` again. -/
def wait (cv : ConditionVariable) (executor : RunnerId) (location : Addr) :
    Option ConditionVariable :=
  (cv.policy.wakeThread executor).map fun newPolicy =>
    { currentState := stateForQueue newPolicy
      runningThread := executor
      associatedMutex := location
      waitingCount := newPolicy.waitQueue.length
      policy := newPolicy }

/-! ### What the operations do to the policy -/

section

variable {cv newCv : ConditionVariable} {p t : RunnerId} {location : Addr}

@[simp]
theorem enqueueThread_waitQueue :
    (cv.enqueueThread p location).policy.waitQueue = cv.policy.waitQueue ++ [p] := by
  unfold enqueueThread
  split_ifs <;> rfl

@[simp]
theorem enqueueThread_associatedMutex :
    (cv.enqueueThread p location).associatedMutex = location := rfl

/-- Falling asleep neither wakes a thread nor lets one leave. -/
theorem enqueueThread_defaultPolicy :
    (cv.enqueueThread p location).policy.toConditionVariableDefaultPolicy =
      cv.policy.toConditionVariableDefaultPolicy := by
  unfold enqueueThread
  split_ifs <;> rfl

@[simp]
theorem enqueueThread_wakeGroups :
    (cv.enqueueThread p location).policy.wakeGroups = cv.policy.wakeGroups :=
  congrArg (·.wakeGroups) enqueueThread_defaultPolicy

@[simp]
theorem enqueueThread_broadcastEligibleThreads :
    (cv.enqueueThread p location).policy.broadcastEligibleThreads =
      cv.policy.broadcastEligibleThreads :=
  congrArg (·.broadcastEligibleThreads) enqueueThread_defaultPolicy

theorem enqueueThread_getThreadCvState :
    getThreadCvState (cv.enqueueThread p location).policy t =
      if t = p then .waiting else getThreadCvState cv.policy t := by
  by_cases h : t = p
  · subst h
    simp [enqueueThread, addWaiterWithState, updateThreadCvState, getThreadCvState]
  · unfold enqueueThread
    split_ifs <;>
      simp [addWaiterWithState, updateThreadCvState, getThreadCvState,
        ConditionVariableSingleGroupPolicy.addWaiter, h]

/-- A thread whose status is `CV_WAITING` counts as sleeping while it is queued. -/
theorem mem_waitingThreads :
    t ∈ cv.waitingThreads ↔
      t ∈ cv.policy.waitQueue ∧ getThreadCvState cv.policy t = .waiting := by
  simp [waitingThreads]

/-- When every queued thread has the status `CV_WAITING`, all of them are sleeping. -/
theorem waitingThreads_eq (h : ∀ t ∈ cv.policy.waitQueue, getThreadCvState cv.policy t = .waiting) :
    cv.waitingThreads = cv.policy.waitQueue := by
  rw [waitingThreads, List.filter_eq_self]
  exact fun t ht => by simp [h t ht]

@[simp]
theorem signal_waitQueue : cv.signal.policy.waitQueue = cv.policy.waitQueue := by
  unfold signal addToWakeGroups
  split_ifs <;> rfl

@[simp]
theorem signal_broadcastEligibleThreads :
    cv.signal.policy.broadcastEligibleThreads = cv.policy.broadcastEligibleThreads := by
  unfold signal addToWakeGroups
  split_ifs <;> rfl

@[simp]
theorem signal_getThreadCvState :
    getThreadCvState cv.signal.policy t = getThreadCvState cv.policy t := by
  unfold signal addToWakeGroups
  split_ifs <;> rfl

/-- A signal forms one more wake group, of the sleeping threads, if there are any. -/
theorem signal_wakeGroups (h : cv.waitingThreads ≠ []) :
    cv.signal.policy.wakeGroups = cv.policy.wakeGroups ++ [cv.waitingThreads] := by
  simp [signal, addToWakeGroups, h]

/-- The groups after a signal: the old ones, and perhaps one of the sleeping threads. -/
theorem mem_signal_wakeGroups {wg : WakeGroup} (h : wg ∈ cv.signal.policy.wakeGroups) :
    wg ∈ cv.policy.wakeGroups ∨ wg = cv.waitingThreads := by
  by_cases hne : cv.waitingThreads = []
  · simp [signal, addToWakeGroups, hne] at h
    exact .inl h
  · simpa [signal_wakeGroups hne] using h

@[simp]
theorem broadcast_waitQueue : (cv.broadcast p).policy.waitQueue = [] := rfl

@[simp]
theorem broadcast_wakeGroups : (cv.broadcast p).policy.wakeGroups = [] := rfl

@[simp]
theorem broadcast_getThreadCvState :
    getThreadCvState (cv.broadcast p).policy t = getThreadCvState cv.policy t := by
  unfold broadcast addToWakeGroups
  split_ifs <;> rfl

/-- After a broadcast the threads which may leave are those which might before, in some
wake group or not, and those which were queued. -/
theorem mem_broadcast_broadcastEligibleThreads :
    t ∈ (cv.broadcast p).policy.broadcastEligibleThreads ↔
      t ∈ cv.policy.broadcastEligibleThreads ∨ (∃ wg ∈ cv.policy.wakeGroups, t ∈ wg) ∨
        t ∈ cv.policy.waitQueue := by
  have key : t ∈ (cv.broadcast p).policy.broadcastEligibleThreads ↔
      t ∈ cv.policy.broadcastEligibleThreads ∨
        (∃ wg ∈ (addToWakeGroups cv.policy cv.waitingThreads).wakeGroups, t ∈ wg) ∨
          t ∈ cv.policy.waitQueue := by
    unfold broadcast addToWakeGroups
    split_ifs <;>
      simp [ConditionVariableSingleGroupPolicy.receiveBroadcastMessage,
        ConditionVariableDefaultPolicy.receiveBroadcastMessage, or_assoc]
  rw [key]
  unfold addToWakeGroups
  split_ifs
  · rfl
  · -- the new group consists of queued threads
    have hsub : t ∈ cv.waitingThreads → t ∈ cv.policy.waitQueue := fun h =>
      (mem_waitingThreads.mp h).1
    simp only [List.mem_append, List.mem_singleton, or_and_right, exists_or, exists_eq_left]
    rw [or_assoc, or_iff_right_of_imp hsub]

/-- Waking up is defined exactly when the policy lets the thread leave. -/
theorem wait_isSome_iff :
    (cv.wait p location).isSome = true ↔ cv.policy.threadCanExit p = true := by
  rw [wait, Option.isSome_map, ConditionVariableSingleGroupPolicy.wakeThread, Option.isSome_map,
    ConditionVariableDefaultPolicy.wakeThread_isSome_iff]

/-- The parts of the condition variable after `p` has woken up. -/
theorem wait_eq_some (h : cv.wait p location = some newCv) :
    newCv.numRemainingSpuriousWakeups = 0 ∧ newCv.associatedMutex = location ∧
    newCv.policy.waitQueue = cv.policy.waitQueue.erase p ∧
    newCv.policy.threadsWithStates = cv.policy.threadsWithStates ∧
    cv.policy.toConditionVariableDefaultPolicy.wakeThread p =
      some newCv.policy.toConditionVariableDefaultPolicy := by
  simp only [wait, ConditionVariableSingleGroupPolicy.wakeThread, Option.map_map,
    Option.map_eq_some_iff] at h
  obtain ⟨d, hd, rfl⟩ := h
  exact ⟨rfl, rfl, rfl, rfl, hd⟩

theorem wait_currentState (h : cv.wait p location = some newCv) :
    newCv.currentState = stateForQueue newCv.policy := by
  obtain ⟨q, -, rfl⟩ := Option.map_eq_some_iff.mp h
  rfl

/-- Waking up removes `p` only. -/
theorem wait_mem (h : cv.wait p location = some newCv) (ht : t ≠ p) :
    (t ∈ newCv.policy.waitQueue ↔ t ∈ cv.policy.waitQueue) ∧
      (t ∈ newCv.policy.broadcastEligibleThreads ↔ t ∈ cv.policy.broadcastEligibleThreads) ∧
      ((∃ wg ∈ newCv.policy.wakeGroups, t ∈ wg) → ∃ wg ∈ cv.policy.wakeGroups, t ∈ wg) := by
  obtain ⟨-, -, hqueue, -, hwake⟩ := wait_eq_some h
  refine ⟨by rw [hqueue, List.mem_erase_of_ne ht], ?_⟩
  unfold ConditionVariableDefaultPolicy.wakeThread at hwake
  split_ifs at hwake
  · rw [← Option.some.inj hwake]
    refine ⟨by simp [ht], ?_⟩
    rintro ⟨wg, hwg, htwg⟩
    obtain ⟨wg₀, hwg₀, rfl⟩ := List.mem_map.mp hwg
    exact ⟨wg₀, hwg₀, (WakeGroup.mem_removeCandidateThread.mp htwg).1⟩
  · rw [← Option.some.inj hwake]
    refine ⟨Iff.rfl, ?_⟩
    rintro ⟨wg, hwg, htwg⟩
    obtain ⟨wg₀, hwg₀, rfl⟩ := List.mem_map.mp hwg
    exact ⟨wg₀, List.mem_of_mem_eraseP hwg₀, (WakeGroup.mem_removeCandidateThread.mp htwg).1⟩

end

end ConditionVariable

end McMini
