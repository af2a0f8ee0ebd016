import Mathlib.Data.List.Sort
import McMini.Properties.Addresses
import McMini.Properties.Restore
import McMini.RealWorld.Transfer

/-!
# The transfer loses nothing

What the reader builds from the stream of a record list has an object for each recorded one, in the
state recorded for it, and a runner with the recorded id for each thread (`transfer_lossless`).

* **Waiters.** A waiter's entry names its condition variable by the address, and the entries of one
  queue are next to each other. Since no two objects are recorded at one address, the threads
  which have been read for an address when its condition variable is read are those of its queue.
* **Ids.** Runners are numbered in the order in which they are added. The ids are the numbers from
  `0`, so sorting moves each thread to the position which is its id.
* **Handles.** The reader does not overwrite an address. A thread whose handle is the address of an
  object or the handle of a thread with a smaller id is not found under it.
-/

namespace McMini

namespace Transfer

open Coordinator Foundation Record ConditionVariableArbitraryPolicy

/-! ### What is recorded -/

/-- The object of the entry, with its address. -/
def RecordedObject.objectEntry : RecordedObject → Option (Addr × ObjectRecord)
  | .object location state => some (location, state)
  | _ => none

def RecordedObject.threadEntry : RecordedObject → Option ThreadRecord
  | .thread r => some r
  | _ => none

section Records

variable (recList : List RecordedObject)

def recordedObjects : List (Addr × ObjectRecord) := recList.filterMap (·.objectEntry)

def recordedThreads : List ThreadRecord := recList.filterMap (·.threadEntry)

def locations : List Addr := (recordedObjects recList).map (·.1)

def handles : List Addr := (recordedThreads recList).map (·.pthreadDesc)

/-- A list as the recorder keeps it: objects at different addresses, threads whose ids are the
first numbers, and queues of different threads. -/
structure Recorded (queues : Addr → ThreadQueue) : Prop where
  entries : ∀ entry ∈ recList, entry.objectEntry ≠ none ∨ entry.threadEntry ≠ none
  locations : (locations recList).Nodup
  ids : ((recordedThreads recList).map (·.id)).Perm (List.range (recordedThreads recList).length)
  queues : ∀ location r, .object location (.conditionVariable r) ∈ recList →
    (queues r.waitingThreads).threads.Nodup

variable {recList} {entry : RecordedObject} {location : Addr} {state : ObjectRecord}
  {r : ThreadRecord}

theorem mem_objects :
    (location, state) ∈ recordedObjects recList ↔ .object location state ∈ recList := by
  rw [recordedObjects, List.mem_filterMap]
  constructor
  · rintro ⟨entry, hentry, h⟩
    cases entry with
    | object =>
      obtain ⟨rfl, rfl⟩ := Prod.mk.inj (Option.some.inj h)
      exact hentry
    | unknown | thread | cvWaitersQueue => cases h
  · exact fun h => ⟨_, h, rfl⟩

theorem mem_threads : r ∈ recordedThreads recList ↔ .thread r ∈ recList := by
  rw [recordedThreads, List.mem_filterMap]
  constructor
  · rintro ⟨entry, hentry, h⟩
    cases entry with
    | thread =>
      obtain rfl := Option.some.inj h
      exact hentry
    | unknown | object | cvWaitersQueue => cases h
  · exact fun h => ⟨_, h, rfl⟩

end Records

/-! ### What is restored -/

/-- Whether the status is the one of a thread which is or will be asleep. -/
def Queued (status : ConditionVariableStatus) : Prop := status = .prewaiting ∨ status = .waiting

instance : DecidablePred Queued := fun status =>
  inferInstanceAs (Decidable (status = .prewaiting ∨ status = .waiting))

/-- The condition variable is the recorded one: the queued threads are queued in the same order,
each with its status, and exactly the signaled ones can leave. -/
structure RestoresCond (queue : ThreadQueue) (r : CondState) (cv : ConditionVariable) : Prop where
  state : cv.currentState = conditionVariableState r.status
  mutex : cv.associatedMutex = r.associatedMutex
  waitQueue : cv.policy.waitQueue =
    ThreadQueue.threads (queue.filter fun node => Queued node.threadCvState)
  status : ∀ node ∈ queue, Queued node.threadCvState →
    getThreadCvState cv.policy node.thread = node.threadCvState
  signaled : ∀ thread, cv.waiterCanExit thread = true ↔ ⟨thread, .signaled⟩ ∈ queue

/-- The state in the model is the recorded one. -/
inductive Restores (queues : Addr → ThreadQueue) (location : Addr) :
    ObjectRecord → VisibleObjectState → Prop
  | mutex (r : MutexRecord) :
      Restores queues location (.mutex r) (.mutex ⟨mutexState r.status, location, r.owner⟩)
  | semaphore (r : SemaphoreRecord) :
      Restores queues location (.semaphore r) (.semaphore ⟨r.count, semaphoreState r.status⟩)
  | conditionVariable {r : CondState} {cv : ConditionVariable}
      (h : RestoresCond (queues r.waitingThreads) r cv) :
      Restores queues location (.conditionVariable r) (.conditionVariable cv)

/-- Every recorded object is in the model, under its address and in its state, and every recorded
thread is the runner with its id. -/
structure Restored (queues : Addr → ThreadQueue) (recList : List RecordedObject)
    (c : Coordinator) : Prop where
  object : ∀ location state, .object location state ∈ recList →
    ∃ o, c.objectAt location = some o ∧ Restores queues location state o
  thread : ∀ r, .thread r ∈ recList →
    c.getStateSequence.toState.HasThread r.id ⟨threadState r.status⟩

/-- The model has no object and no runner more. -/
structure Exact (recList : List RecordedObject) (c : Coordinator) : Prop where
  objects : c.getStateSequence.visibleObjects.length = recList.length
  runners : c.getStateSequence.runnerToObjMap.size = (recordedThreads recList).length
  addresses : ∀ location ∈ locations recList, ∀ location' ∈ locations recList,
    c.getModelOfObject location = c.getModelOfObject location' → location = location'

/-- The object under the handle of a thread is the one of its runner. -/
def FindsThreads (recList : List RecordedObject) (c : Coordinator) : Prop :=
  ∀ r, .thread r ∈ recList → c.systemAddressMapping.lookup r.pthreadDesc =
    c.getStateSequence.toState.objidForRunner r.id

/-! ### Condition variables -/

section Construct

variable {ts : List (RunnerId × ConditionVariableStatus)}
  {policy : ConditionVariableArbitraryPolicy} {thread : RunnerId} {status : ConditionVariableStatus}

/-- Adds waiters, as the constructor does. -/
def addWaiters (policy : ConditionVariableArbitraryPolicy)
    (ts : List (RunnerId × ConditionVariableStatus)) : ConditionVariableArbitraryPolicy :=
  ts.foldl (fun p ts => addWaiterWithState p ts.1 ts.2) policy

theorem addWaiters_cons (w : RunnerId × ConditionVariableStatus) :
    addWaiters policy (w :: ts) = addWaiters (addWaiterWithState policy w.1 w.2) ts := rfl

theorem addWaiters_waitQueue :
    (addWaiters policy ts).waitQueue = policy.waitQueue ++ ts.map (·.1) := by
  induction ts generalizing policy with
  | nil => exact (List.append_nil _).symm
  | cons w ts ih =>
    have hadd : (addWaiterWithState policy w.1 w.2).waitQueue = policy.waitQueue ++ [w.1] := rfl
    rw [addWaiters_cons, ih, hadd, List.append_assoc]
    rfl

theorem getThreadCvState_addWaiterWithState (w : RunnerId × ConditionVariableStatus) :
    getThreadCvState (addWaiterWithState policy w.1 w.2) thread =
      if w.1 = thread then w.2 else getThreadCvState policy thread := by
  have hlookup : (addWaiterWithState policy w.1 w.2).threadsWithStates.lookup thread =
      if w.1 = thread then some w.2 else policy.threadsWithStates.lookup thread :=
    lookup_insert policy.threadsWithStates w.1 thread w.2
  rw [getThreadCvState, hlookup]
  split_ifs
  · rfl
  · rfl

theorem getThreadCvState_addWaiters_of_notMem (h : thread ∉ ts.map (·.1)) :
    getThreadCvState (addWaiters policy ts) thread = getThreadCvState policy thread := by
  induction ts generalizing policy with
  | nil => rfl
  | cons w ts ih =>
    rw [List.map_cons, List.mem_cons, not_or] at h
    rw [addWaiters_cons, ih h.2, getThreadCvState_addWaiterWithState, if_neg (Ne.symm h.1)]

/-- Different waiters keep the status each was added with. -/
theorem getThreadCvState_addWaiters (policy : ConditionVariableArbitraryPolicy)
    (hnodup : (ts.map (·.1)).Nodup) (h : (thread, status) ∈ ts) :
    getThreadCvState (addWaiters policy ts) thread = status := by
  induction ts generalizing policy with
  | nil => exact absurd h List.not_mem_nil
  | cons w ts ih =>
    rw [List.map_cons, List.nodup_cons] at hnodup
    rw [addWaiters_cons]
    rcases List.mem_cons.mp h with rfl | h
    · rw [getThreadCvState_addWaiters_of_notMem hnodup.1, getThreadCvState_addWaiterWithState,
        if_pos rfl]
    · exact ih _ hnodup.2 h

/-- The entries of a queue as the reader keeps them. -/
def recordedWaiters (queue : ThreadQueue) : List (RunnerId × ConditionVariableStatus) :=
  queue.map fun node => (node.thread, node.threadCvState)

variable {queue : ThreadQueue}

theorem mem_recordedWaiters :
    (thread, status) ∈ recordedWaiters queue ↔ ⟨thread, status⟩ ∈ queue := by
  rw [recordedWaiters, List.mem_map]
  constructor
  · rintro ⟨node, hnode, h⟩
    obtain ⟨rfl, rfl⟩ := Prod.mk.inj h
    exact hnode
  · exact fun h => ⟨_, h, rfl⟩

/-- The waiters which the constructor queues. -/
def queuedWaiters (queue : ThreadQueue) : List (RunnerId × ConditionVariableStatus) :=
  recordedWaiters (queue.filter fun node => Queued node.threadCvState)

theorem queuedWaiters_eq :
    (recordedWaiters queue).filter (fun ts => ts.2 == .prewaiting || ts.2 == .waiting) =
      queuedWaiters queue := by
  rw [recordedWaiters, List.filter_map, queuedWaiters, recordedWaiters]
  congr 1
  refine List.filter_congr fun node _ => ?_
  show (node.threadCvState == .prewaiting || node.threadCvState == .waiting) = decide (Queued _)
  rw [Bool.eq_iff_iff, Bool.or_eq_true, beq_iff_eq, beq_iff_eq, decide_eq_true_iff, Queued]

theorem map_queuedWaiters : (queuedWaiters queue).map (·.1) =
    ThreadQueue.threads (queue.filter fun node => Queued node.threadCvState) := by
  rw [queuedWaiters, recordedWaiters, List.map_map, ThreadQueue.threads]
  rfl

/-- **A condition variable is restored from the entries of its queue.** -/
theorem restoresCond_construct {r : CondState} (h : queue.threads.Nodup) :
    RestoresCond queue r (.construct (conditionVariableState r.status) r.interactingThread
      r.associatedMutex r.count (recordedWaiters queue)) := by
  let cv := ConditionVariable.construct (conditionVariableState r.status) r.interactingThread
    r.associatedMutex r.count (recordedWaiters queue)
  -- the wake groups are formed after the waiters have been added
  have hpolicy : cv.policy.waitQueue = (addWaiters {} (queuedWaiters queue)).waitQueue ∧
      cv.policy.threadsWithStates = (addWaiters {} (queuedWaiters queue)).threadsWithStates := by
    rw [← queuedWaiters_eq]
    show (addToWakeGroups (addWaiters {} _) _).waitQueue = _ ∧
      (addToWakeGroups (addWaiters {} _) _).threadsWithStates = _
    rw [addToWakeGroups]
    split_ifs
    · exact ⟨rfl, rfl⟩
    · exact ⟨rfl, rfl⟩
  have hnodup : ((queuedWaiters queue).map (·.1)).Nodup := by
    rw [map_queuedWaiters]
    exact h.sublist (List.filter_sublist.map _)
  refine ⟨rfl, rfl, ?_, fun node hnode hqueued => ?_, fun thread => ?_⟩
  · show cv.policy.waitQueue = _
    rw [hpolicy.1, addWaiters_waitQueue, map_queuedWaiters]
    rfl
  · show getThreadCvState cv.policy node.thread = _
    have hmem : (node.thread, node.threadCvState) ∈ queuedWaiters queue := by
      rw [queuedWaiters, mem_recordedWaiters, List.mem_filter]
      exact ⟨hnode, decide_eq_true hqueued⟩
    have hstate := getThreadCvState_addWaiters {} hnodup hmem
    rw [getThreadCvState] at hstate ⊢
    rw [hpolicy.2, hstate]
  · have hsignaled : thread ∈ signaledThreads (recordedWaiters queue) ↔
        ⟨thread, .signaled⟩ ∈ queue := by
      rw [← mem_recordedWaiters, signaledThreads, List.mem_map]
      simp
    have hexit : cv.waiterCanExit thread =
        cv.policy.toConditionVariableDefaultPolicy.threadCanExit thread := rfl
    show cv.waiterCanExit thread = true ↔ _
    rw [hexit, ConditionVariable.construct_defaultPolicy,
      ConditionVariableDefaultPolicy.threadCanExit_iff, ← hsignaled]
    split_ifs with hempty
    · simp [List.isEmpty_iff.mp hempty]
    · simp

end Construct

/-! ### What the coordinator knows -/

section Lists

variable {l l' : List Addr} {a : Addr} {i : ℕ}

theorem idxOf?_concat (l : List Addr) (a b : Addr) :
    (l ++ [b]).idxOf? a =
      if l.idxOf? a = none then if b = a then some l.length else none else l.idxOf? a := by
  induction l with
  | nil => simp [List.idxOf?_cons]
  | cons x l ih =>
    rw [List.cons_append, List.idxOf?_cons, List.idxOf?_cons, ih]
    by_cases hx : x = a
    · simp [hx]
    · by_cases hl : l.idxOf? a = none
      · by_cases hb : b = a
        · simp [hx, hl, hb]
        · simp [hx, hl, hb]
      · simp [hx, hl]

/-- In a list without repetition every element is found where it is. -/
theorem nodup_iff_idxOf? : l.Nodup ↔ ∀ i a, l[i]? = some a → l.idxOf? a = some i := by
  constructor
  · intro h i a hi
    obtain ⟨hlt, hget⟩ := List.getElem?_eq_some_iff.mp hi
    refine List.idxOf?_eq_some_iff.mpr ⟨hlt, hget, fun j hj heq => ?_⟩
    have hji : j = i := (h.getElem_inj_iff).mp (heq.trans hget.symm)
    exact hj.ne hji
  · intro h
    rw [List.nodup_iff_getElem?_ne_getElem?]
    intro i j hij hj heq
    have hgetj := List.getElem?_eq_getElem hj
    have hi := h i _ (heq.trans hgetj)
    rw [h j _ hgetj] at hi
    exact hij.ne' (Option.some.inj hi)

theorem idxOf?_append_of_eq_some (h : l.idxOf? a = some i) : (l ++ l').idxOf? a = some i := by
  obtain ⟨hlt, hget, hfirst⟩ := List.idxOf?_eq_some_iff.mp h
  refine List.idxOf?_eq_some_iff.mpr ⟨by simp; omega, ?_, fun j hj => ?_⟩
  · rw [List.getElem_append_left hlt, hget]
  · rw [List.getElem_append_left (hj.trans hlt)]
    exact hfirst j hj

end Lists

/-- The model consists of these objects, of which the ones from the `n`-th on are the runners, and
each address is mapped to the first object which was added with it. -/
structure Knows (n : ℕ) (entries : List (Addr × VisibleObjectState)) (c : Coordinator) :
    Prop where
  settled : c.getStateSequence.Settled
  objects : c.getStateSequence.visibleObjects = entries.map fun entry => .ofState entry.2
  addresses : ∀ a, c.systemAddressMapping.lookup a = (entries.map (·.1)).idxOf? a
  size : entries.length = n + c.getStateSequence.runnerToObjMap.size
  runners : ∀ p < c.getStateSequence.runnerToObjMap.size,
    c.getStateSequence.runnerToObjMap.lookup p = some (n + p)

section Knows

variable {n : ℕ} {entries : List (Addr × VisibleObjectState)} {c : Coordinator} {location : Addr}
  {o : VisibleObjectState} {i : ℕ}

theorem knows_unstarted : Knows 0 [] unstarted :=
  ⟨StateSequence.settled_ofDetachedState _, rfl, fun _ => rfl, rfl,
    fun p hp => absurd hp (Nat.not_lt_zero p)⟩

theorem Knows.length_objects (h : Knows n entries c) :
    c.getStateSequence.visibleObjects.length = entries.length := by
  rw [h.objects, List.length_map]

theorem Knows.objectState (h : Knows n entries c) (hi : entries[i]? = some (location, o)) :
    c.getStateSequence.toState.objectState i = some o := by
  rw [h.settled.current.objectState, h.objects, List.getElem?_map, hi]
  rfl

/-- Where all objects are found, so is the next one. -/
theorem Knows.contains_eq_false (h : Knows n entries c) (hnew : location ∉ entries.map (·.1)) :
    c.contains location = false := by
  have hlookup : c.systemAddressMapping.lookup location = none := by
    rw [h.addresses, List.idxOf?_eq_none_iff]
    exact hnew
  simp [Coordinator.contains, Coordinator.getModelOfObject, hlookup]

/-- The addresses after one more is added, unless it is known. -/
theorem Knows.addresses_concat (h : Knows n entries c) (location : Addr) (o : VisibleObjectState)
    (a : Addr) :
    (c.insertAddress location c.getStateSequence.visibleObjects.length).lookup a =
      ((entries ++ [(location, o)]).map (·.1)).idxOf? a := by
  rw [Coordinator.insertAddress, List.map_append, List.map_singleton, idxOf?_concat, ← h.addresses, h.length_objects,
    List.length_map]
  by_cases hknown : c.systemAddressMapping.lookup location = none
  · rw [if_pos hknown, lookup_insert]
    by_cases ha : location = a
    · rw [if_pos ha, ← ha, if_pos hknown, if_pos rfl]
    · rw [if_neg ha, if_neg ha]
      split_ifs with hnone
      · exact hnone
      · rfl
  · rw [if_neg hknown]
    split_ifs with hnone ha
    · have hlocation : location = a := ha
      rw [hlocation] at hknown
      exact absurd hnone hknown
    · exact hnone
    · rfl

/-- Objects are added while there are no runners. -/
theorem Knows.observe (h : Knows entries.length entries c) :
    Knows (entries ++ [(location, o)]).length (entries ++ [(location, o)])
      (c.observe location o) := by
  have hsize : c.getStateSequence.runnerToObjMap.size = 0 := by
    have := h.size
    omega
  have hsize' : (c.observe location o).getStateSequence.runnerToObjMap.size = 0 := hsize
  refine ⟨h.settled.addObject o, ?_, fun a => ?_, by rw [hsize', Nat.add_zero], fun p hp => ?_⟩
  · show c.getStateSequence.visibleObjects ++ [.ofState o] = _
    rw [h.objects, List.map_append]
    rfl
  · exact h.addresses_concat location o a
  · rw [hsize'] at hp
    exact absurd hp (Nat.not_lt_zero p)

end Knows

/-! ### Reading the objects -/

section Read

variable {queues : Addr → ThreadQueue} {recList stream : List RecordedObject}
  {received : Received} {entries : List (Addr × VisibleObjectState)} {c : Coordinator}
  {location : Addr} {state : ObjectRecord}

/-- The waiters which are sent with an object. -/
def waitersOf (queues : Addr → ThreadQueue) :
    ObjectRecord → List (RunnerId × ConditionVariableStatus)
  | .conditionVariable r => recordedWaiters (queues r.waitingThreads)
  | _ => []

def restoredObject (queues : Addr → ThreadQueue) (entry : Addr × ObjectRecord) :
    Addr × VisibleObjectState :=
  (entry.1, translateRecordedObjectToModel (fun _ => waitersOf queues entry.2) entry.1 entry.2)

theorem restores_restoredObject
    (h : ∀ r, state = .conditionVariable r → (queues r.waitingThreads).threads.Nodup) :
    Restores queues location state (restoredObject queues (location, state)).2 := by
  cases state with
  | mutex r => exact .mutex r
  | semaphore r => exact .semaphore r
  | conditionVariable r => exact .conditionVariable (restoresCond_construct (h r rfl))

/-- The entries of a queue are kept under the address of the condition variable. -/
theorem readObjects_waiterEntries (location : Addr) (stream : List RecordedObject)
    (received : Received) (queue : ThreadQueue) :
    ∃ received', readObjects (waiterEntries location queue ++ stream) received =
        readObjects stream received' ∧
      received'.recordedThreads = received.recordedThreads ∧
      received'.cvWaitingThreads location =
        received.cvWaitingThreads location ++ recordedWaiters queue ∧
      ∀ a ≠ location, received'.cvWaitingThreads a = received.cvWaitingThreads a := by
  induction queue generalizing received with
  | nil => exact ⟨received, rfl, rfl, (List.append_nil _).symm, fun _ _ => rfl⟩
  | cons node queue ih =>
    obtain ⟨received', hread, hthreads, hlocation, hother⟩ :=
      ih (received.pushWaiter ⟨location, node.thread, node.threadCvState⟩)
    have hself : (received.pushWaiter ⟨location, node.thread, node.threadCvState⟩).cvWaitingThreads
        location = received.cvWaitingThreads location ++ [(node.thread, node.threadCvState)] :=
      Function.update_self location _ _
    refine ⟨received', hread, hthreads, ?_, fun a ha => ?_⟩
    · rw [hlocation, hself, List.append_assoc]
      rfl
    · rw [hother a ha]
      exact Function.update_of_ne ha _ _

/-- What is written for an object is read back. -/
theorem readObjects_writeEntry (stream : List RecordedObject) {written : List RecordedObject}
    (hwritten : writeEntry queues (.object location state) = some written)
    (hwaiters : received.cvWaitingThreads location = [])
    (hcontains : c.contains location = false) :
    ∃ received', (readObjects (written ++ stream) received).run c =
        (readObjects stream received').run
          (c.observe location (restoredObject queues (location, state)).2) ∧
      received'.recordedThreads = received.recordedThreads ∧
      ∀ a ≠ location, received'.cvWaitingThreads a = received.cvWaitingThreads a := by
  have hobject : ∀ received' : Received,
      received'.cvWaitingThreads location = waitersOf queues state →
      (readObjects (.object location state :: stream) received').run c =
        (readObjects stream received').run
          (c.observe location (restoredObject queues (location, state)).2) := by
    intro received' h
    have htranslated : translateRecordedObjectToModel received'.cvWaitingThreads location state =
        (restoredObject queues (location, state)).2 := by
      cases state with
      | mutex r => rfl
      | semaphore r => rfl
      | conditionVariable r =>
        simp only [restoredObject, translateRecordedObjectToModel, h]
    rw [readObjects, run_bind, observeObject_run hcontains, htranslated]
  cases state with
  | mutex r =>
    obtain rfl := Option.some.inj hwritten
    exact ⟨received, hobject received hwaiters, rfl, fun _ _ => rfl⟩
  | semaphore r =>
    obtain rfl := Option.some.inj hwritten
    exact ⟨received, hobject received hwaiters, rfl, fun _ _ => rfl⟩
  | conditionVariable r =>
    obtain rfl := Option.some.inj hwritten
    obtain ⟨received', hread, hthreads, hlocation, hother⟩ := readObjects_waiterEntries location
      (.object location (.conditionVariable r) :: stream) received (queues r.waitingThreads)
    rw [hwaiters, List.nil_append] at hlocation
    refine ⟨received', ?_, hthreads, hother⟩
    rw [List.append_assoc, List.singleton_append, hread]
    exact hobject received' hlocation

/-- **Reading a written list** adds its objects in order and keeps its threads. -/
theorem readObjects_templateThread (received : Received)
    (hstream : templateThread queues recList = some stream)
    (hknows : Knows entries.length entries c)
    (hlocations : (entries.map (·.1) ++ locations recList).Nodup)
    (hwaiters : ∀ location ∈ locations recList, received.cvWaitingThreads location = []) :
    ∃ received' c', (readObjects stream received).run c = (.ok received', c') ∧
      received'.recordedThreads = received.recordedThreads ++ recordedThreads recList ∧
      Knows (entries ++ (recordedObjects recList).map (restoredObject queues)).length
        (entries ++ (recordedObjects recList).map (restoredObject queues)) c' := by
  induction recList generalizing stream received entries c with
  | nil =>
    obtain rfl := Option.some.inj hstream
    refine ⟨received, c, rfl, (List.append_nil _).symm, ?_⟩
    rw [recordedObjects, List.filterMap_nil, List.map_nil, List.append_nil]
    exact hknows
  | cons entry recList ih =>
    obtain ⟨written, hwritten, hbind⟩ := Option.bind_eq_some_iff.mp hstream
    obtain ⟨rest, hrest, heq⟩ := Option.bind_eq_some_iff.mp hbind
    obtain rfl := Option.some.inj heq
    cases entry with
    | unknown => cases hwritten
    | cvWaitersQueue w => cases hwritten
    | thread r =>
      obtain rfl := Option.some.inj hwritten
      -- a thread is kept for later, and the model does not change
      obtain ⟨received', c', hrun, hthreads, hknows'⟩ :=
        ih (received.pushThread r) hrest hknows hlocations hwaiters
      refine ⟨received', c', hrun, ?_, hknows'⟩
      rw [hthreads]
      exact List.append_assoc _ _ _
    | object location state =>
      -- the location has not been read before, so the model does not know it
      have hnew : location ∉ entries.map (·.1) := by
        intro hmem
        exact (List.nodup_append.mp hlocations).2.2 location hmem location List.mem_cons_self rfl
      have hrestLocations : location ∉ locations recList :=
        (List.nodup_cons.mp (List.nodup_append.mp hlocations).2.1).1
      obtain ⟨received', hread, hthreads, hother⟩ := readObjects_writeEntry rest hwritten
        (hwaiters location List.mem_cons_self) (hknows.contains_eq_false hnew)
      have hlocations' : ((entries ++ [restoredObject queues (location, state)]).map (·.1) ++
          locations recList).Nodup := by
        rw [List.map_append, List.append_assoc]
        exact hlocations
      have hwaiters' : ∀ a ∈ locations recList, received'.cvWaitingThreads a = [] := by
        intro a ha
        rw [hother a fun h => hrestLocations (h ▸ ha)]
        exact hwaiters a (List.mem_cons_of_mem _ ha)
      obtain ⟨received'', c', hrun, hthreads', hknows'⟩ :=
        ih received' hrest hknows.observe hlocations' hwaiters'
      refine ⟨received'', c', hread.trans hrun, ?_, ?_⟩
      · rw [hthreads', hthreads]
        rfl
      · rw [List.append_assoc] at hknows'
        exact hknows'

end Read

/-! ### Adding the runners -/

section Runners

variable {n : ℕ} {entries : List (Addr × VisibleObjectState)} {c : Coordinator} {handle : Addr}
  {ts : List ThreadRecord} {r : ThreadRecord}

/-- Adding a runner, whether its handle is known or not. -/
theorem observeRecordedRunner_run (handle : Addr) (hs : c.getStateSequence.Settled) (rs : Thread) :
    ∃ s', StateSequence.AddsRunner c.getStateSequence rs s' ∧
      (observeRecordedRunner handle rs).run c = (.ok (),
        ⟨⟨s', c.currentProgramModel.trace, c.currentProgramModel.nextSteps⟩,
          c.insertAddress handle c.getStateSequence.visibleObjects.length, c.executed⟩) := by
  obtain ⟨s', hs'⟩ : ∃ s', c.getStateSequence.addRunner rs =
      (s', .ok c.getStateSequence.runnerToObjMap.size) := ⟨_, Prod.ext rfl (hs.addRunner rs).2⟩
  have hadds : StateSequence.AddsRunner c.getStateSequence rs s' := by
    have hadds := hs.addsRunner rs
    rwa [hs'] at hadds
  have hobjid := hadds.settled.getObjidForRunnerAt hadds.lookup_self
  refine ⟨s', hadds, ?_⟩
  unfold observeRecordedRunner
  simp only [run_bind, run_get, hs', hobjid]
  rfl

theorem Knows.addsRunner {rs : Thread} {s' : StateSequence} (h : Knows n entries c)
    (hadds : StateSequence.AddsRunner c.getStateSequence rs s') :
    Knows n (entries ++ [(handle, .thread rs)])
      ⟨⟨s', c.currentProgramModel.trace, c.currentProgramModel.nextSteps⟩,
        c.insertAddress handle c.getStateSequence.visibleObjects.length, c.executed⟩ := by
  have hlength := h.length_objects
  have hsize := h.size
  refine ⟨hadds.settled, ?_, h.addresses_concat _ _, ?_, fun p hp => ?_⟩
  · show s'.visibleObjects = _
    rw [hadds.objects, h.objects, List.map_append]
    rfl
  · show _ = n + s'.runnerToObjMap.size
    rw [hadds.size, List.length_append, List.length_singleton, hsize, Nat.add_assoc]
  · show s'.runnerToObjMap.lookup p = _
    have hp' : p < c.getStateSequence.runnerToObjMap.size + 1 := by
      rw [← hadds.size]
      exact hp
    rw [hadds.lookup]
    split_ifs with heq
    · rw [hlength, hsize, heq]
    · exact h.runners p (lt_of_le_of_ne (Nat.lt_succ_iff.mp hp') (Ne.symm heq))

def restoredThread (r : ThreadRecord) : Addr × VisibleObjectState :=
  (r.pthreadDesc, .thread (translateRecordedRunnerToModel r))

theorem observeRunners_run (ts : List ThreadRecord) (h : Knows n entries c) :
    ∃ c', (observeRunners ts).run c = (.ok (), c') ∧
      Knows n (entries ++ ts.map restoredThread) c' := by
  induction ts generalizing entries c with
  | nil =>
    rw [List.map_nil, List.append_nil]
    exact ⟨c, rfl, h⟩
  | cons r ts ih =>
    obtain ⟨s', hadds, hrun⟩ := observeRecordedRunner_run r.pthreadDesc h.settled
      (translateRecordedRunnerToModel r)
    obtain ⟨c', hrun', h'⟩ := ih (h.addsRunner hadds)
    refine ⟨c', ?_, ?_⟩
    · rw [observeRunners, run_bind, hrun]
      exact hrun'
    · rw [List.append_assoc] at h'
      exact h'

/-- The threads in the order of their ids. -/
def sortedThreads (recList : List RecordedObject) : List ThreadRecord :=
  (recordedThreads recList).insertionSort ThreadRecord.Precedes

variable {recList : List RecordedObject}

theorem mem_sortedThreads : r ∈ sortedThreads recList ↔ .thread r ∈ recList := by
  rw [sortedThreads, List.mem_insertionSort, mem_threads]

theorem length_sortedThreads : (sortedThreads recList).length = (recordedThreads recList).length :=
  List.length_insertionSort _ _

instance : Std.Total ThreadRecord.Precedes := ⟨fun lhs rhs => Nat.le_total lhs.id rhs.id⟩

instance : IsTrans ThreadRecord ThreadRecord.Precedes := ⟨fun _ _ _ => Nat.le_trans⟩

/-- **Sorting moves each thread to the position which is its id.** -/
theorem getElem?_sortedThreads
    (hids : ((recordedThreads recList).map (·.id)).Perm
      (List.range (recordedThreads recList).length))
    (hr : .thread r ∈ recList) : (sortedThreads recList)[r.id]? = some r := by
  have hsorted : ((sortedThreads recList).map (·.id)).SortedLE := by
    rw [List.sortedLE_iff_pairwise, List.pairwise_map]
    exact List.pairwise_insertionSort ThreadRecord.Precedes (recordedThreads recList)
  have hperm : ((sortedThreads recList).map (·.id)).Perm
      (List.range (recordedThreads recList).length) :=
    ((List.perm_insertionSort ThreadRecord.Precedes (recordedThreads recList)).map _).trans hids
  have hrange : (List.range (recordedThreads recList).length).SortedLE := by
    rw [List.sortedLE_iff_pairwise]
    exact List.pairwise_le_range
  have heq := hperm.eq_of_sortedLE hsorted hrange
  obtain ⟨i, hi⟩ := List.mem_iff_getElem?.mp (mem_sortedThreads.mpr hr)
  have hid : ((sortedThreads recList).map (·.id))[i]? = some r.id := by
    rw [List.getElem?_map, hi]
    rfl
  rw [heq, List.getElem?_eq_some_iff] at hid
  obtain ⟨hlt, hid⟩ := hid
  rw [List.getElem_range] at hid
  rw [← hid, hi]

end Runners

/-! ### The restored model -/

section Restored

variable {queues : Addr → ThreadQueue} {recList : List RecordedObject} {c : Coordinator}
  {r : ThreadRecord}

/-- What the model consists of: the objects in the order of the list, then the threads in the
order of their ids. -/
def restoredEntries (queues : Addr → ThreadQueue) (recList : List RecordedObject) :
    List (Addr × VisibleObjectState) :=
  (recordedObjects recList).map (restoredObject queues) ++
    (sortedThreads recList).map restoredThread

theorem map_restoredEntries : (restoredEntries queues recList).map (·.1) =
    locations recList ++ (sortedThreads recList).map (·.pthreadDesc) := by
  rw [restoredEntries, List.map_append, List.map_map, List.map_map]
  rfl

/-- An entry of a recorded list is of an object or of a thread. -/
theorem Recorded.length_eq (h : Recorded recList queues) :
    recList.length = (recordedObjects recList).length + (recordedThreads recList).length := by
  have hentries := h.entries
  clear h
  induction recList with
  | nil => rfl
  | cons entry recList ih =>
    have ih := ih fun e he => hentries e (List.mem_cons_of_mem _ he)
    rw [List.length_cons, ih]
    cases entry with
    | object location state =>
      show _ = (recordedObjects recList).length + 1 + (recordedThreads recList).length
      omega
    | thread r => rfl
    | unknown | cvWaitersQueue =>
      exact absurd (hentries _ List.mem_cons_self) (by simp [RecordedObject.objectEntry,
        RecordedObject.threadEntry])

theorem Recorded.exists_templateThread (h : Recorded recList queues) :
    ∃ stream, templateThread queues recList = some stream := by
  have hentries := h.entries
  clear h
  induction recList with
  | nil => exact ⟨_, rfl⟩
  | cons entry recList ih =>
    obtain ⟨stream, hstream⟩ := ih fun e he => hentries e (List.mem_cons_of_mem _ he)
    have hwritten : ∃ written, writeEntry queues entry = some written := by
      cases entry with
      | object location state =>
        cases state with
        | mutex | semaphore | conditionVariable => exact ⟨_, rfl⟩
      | thread r => exact ⟨_, rfl⟩
      | unknown | cvWaitersQueue =>
        exact absurd (hentries _ List.mem_cons_self) (by simp [RecordedObject.objectEntry,
          RecordedObject.threadEntry])
    obtain ⟨written, hwritten⟩ := hwritten
    refine ⟨written ++ stream, ?_⟩
    simp only [templateThread, hwritten, hstream]
    rfl

theorem Knows.size_runners
    (hknows : Knows (recordedObjects recList).length (restoredEntries queues recList) c) :
    c.getStateSequence.runnerToObjMap.size = (recordedThreads recList).length := by
  have hsize := hknows.size
  rw [restoredEntries, List.length_append, List.length_map, List.length_map,
    length_sortedThreads] at hsize
  omega

variable (h : Recorded recList queues)
  (hknows : Knows (recordedObjects recList).length (restoredEntries queues recList) c)

include h hknows

/-- The object which is found at the address of a recorded one. -/
theorem Knows.lookup_location {i : ℕ} {location : Addr} {state : ObjectRecord}
    (hi : (recordedObjects recList)[i]? = some (location, state)) :
    c.systemAddressMapping.lookup location = some i ∧
      c.getStateSequence.toState.objectState i =
        some (restoredObject queues (location, state)).2 := by
  have hlt : i < (recordedObjects recList).length := (List.getElem?_eq_some_iff.mp hi).1
  have hlocation : (locations recList)[i]? = some location := by
    rw [locations, List.getElem?_map, hi]
    rfl
  have hentry : (restoredEntries queues recList)[i]? =
      some (location, (restoredObject queues (location, state)).2) := by
    rw [restoredEntries, List.getElem?_append_left (by rw [List.length_map]; exact hlt),
      List.getElem?_map, hi]
    rfl
  refine ⟨?_, hknows.objectState hentry⟩
  rw [hknows.addresses, map_restoredEntries]
  exact idxOf?_append_of_eq_some (nodup_iff_idxOf?.mp h.locations i location hlocation)

/-- A thread is the runner with its id, whose object comes after those of the list. -/
theorem Knows.lookup_thread (hr : .thread r ∈ recList) :
    c.getStateSequence.runnerToObjMap.lookup r.id = some ((recordedObjects recList).length + r.id) ∧
      (restoredEntries queues recList)[(recordedObjects recList).length + r.id]? =
        some (restoredThread r) := by
  have hget := getElem?_sortedThreads h.ids hr
  have hlt : r.id < c.getStateSequence.runnerToObjMap.size := by
    rw [hknows.size_runners, ← length_sortedThreads]
    exact (List.getElem?_eq_some_iff.mp hget).1
  refine ⟨hknows.runners r.id hlt, ?_⟩
  have hle : ((recordedObjects recList).map (restoredObject queues)).length ≤
      (recordedObjects recList).length + r.id := by
    rw [List.length_map]
    exact Nat.le_add_right _ _
  rw [restoredEntries, List.getElem?_append_right hle, List.length_map, Nat.add_sub_cancel_left, List.getElem?_map, hget]
  rfl

theorem Knows.restored : Restored queues recList c := by
  refine ⟨fun location state hmem => ?_, fun r hr => ?_⟩
  · obtain ⟨i, hi⟩ := List.mem_iff_getElem?.mp (mem_objects.mpr hmem)
    obtain ⟨hlookup, hobject⟩ := hknows.lookup_location h hi
    refine ⟨_, ?_, restores_restoredObject fun r hr => h.queues location r (hr ▸ hmem)⟩
    rw [Coordinator.objectAt, hlookup, Option.bind_some, hobject]
  · obtain ⟨hlookup, hentry⟩ := hknows.lookup_thread h hr
    exact ⟨_, hknows.settled.getObjidForRunnerAt hlookup, hknows.objectState hentry⟩

theorem Knows.exact : Exact recList c := by
  refine ⟨?_, hknows.size_runners, fun location hl location' hl' heq => ?_⟩
  · rw [hknows.length_objects, restoredEntries, List.length_append, List.length_map,
      List.length_map, length_sortedThreads, h.length_eq]
  · obtain ⟨entry, hentry, rfl⟩ := List.mem_map.mp hl
    obtain ⟨entry', hentry', rfl⟩ := List.mem_map.mp hl'
    obtain ⟨i, hi⟩ := List.mem_iff_getElem?.mp hentry
    obtain ⟨j, hj⟩ := List.mem_iff_getElem?.mp hentry'
    rw [Coordinator.getModelOfObject, Coordinator.getModelOfObject,
      (hknows.lookup_location h hi).1, (hknows.lookup_location h hj).1] at heq
    have hij : i = j := heq
    rw [hij, hj] at hi
    exact (congrArg Prod.fst (Option.some.inj hi)).symm

/-- **Threads are found under their handles** exactly when these are different from each other and
from the addresses of the objects. -/
theorem Knows.findsThreads_iff :
    FindsThreads recList c ↔ (locations recList ++ handles recList).Nodup := by
  have hperm : ((restoredEntries queues recList).map (·.1)).Perm
      (locations recList ++ handles recList) := by
    rw [map_restoredEntries]
    exact ((List.perm_insertionSort ThreadRecord.Precedes _).map _).append_left _
  rw [← hperm.nodup_iff, nodup_iff_idxOf?]
  constructor
  · intro hfinds i a hi
    rcases Nat.lt_or_ge i (recordedObjects recList).length with hlt | hge
    · rw [map_restoredEntries] at hi ⊢
      have hi' : (locations recList)[i]? = some a := by
        rwa [List.getElem?_append_left (by rw [locations, List.length_map]; exact hlt)] at hi
      exact idxOf?_append_of_eq_some (nodup_iff_idxOf?.mp h.locations i a hi')
    · rw [map_restoredEntries, List.getElem?_append_right (by
        rw [locations, List.length_map]; exact hge), locations, List.length_map,
        List.getElem?_map] at hi
      obtain ⟨r, hr, rfl⟩ := Option.map_eq_some_iff.mp hi
      have hmem : .thread r ∈ recList := mem_sortedThreads.mp (List.mem_of_getElem? hr)
      -- the position of the thread is its id
      have hid : r.id = i - (recordedObjects recList).length := by
        have hget := getElem?_sortedThreads h.ids hmem
        have hnodup : (sortedThreads recList).Nodup := by
          refine ((List.perm_insertionSort ThreadRecord.Precedes _).nodup_iff).mpr ?_
          exact List.Nodup.of_map _ (h.ids.nodup_iff.mpr List.nodup_range)
        obtain ⟨hlt, hget⟩ := List.getElem?_eq_some_iff.mp hget
        obtain ⟨hlt', hr⟩ := List.getElem?_eq_some_iff.mp hr
        exact (hnodup.getElem_inj_iff).mp (hget.trans hr.symm)
      have hfound := hfinds r hmem
      have hobjid : c.getStateSequence.toState.objidForRunner r.id = _ :=
        hknows.settled.getObjidForRunnerAt (hknows.lookup_thread h hmem).1
      rw [hknows.addresses, hobjid, hid, Nat.add_sub_cancel' hge] at hfound
      exact hfound
  · intro hnodup r hr
    obtain ⟨hlookup, hentry⟩ := hknows.lookup_thread h hr
    have hobjid : c.getStateSequence.toState.objidForRunner r.id = _ :=
      hknows.settled.getObjidForRunnerAt hlookup
    rw [hknows.addresses, hobjid]
    refine hnodup _ _ ?_
    rw [List.getElem?_map, hentry]
    rfl

end Restored

/-! ### The pending transitions -/

section Keeps

variable {c c' : Coordinator} {mailboxes : RunnerId → MailboxContents} {r : ThreadRecord}
  {queues : Addr → ThreadQueue} {recList : List RecordedObject}

/-- Looking up a pending transition adds to the model what a callback adds. -/
theorem adds_nextTransition (c : Coordinator) : Adds c ((nextTransition mailboxes r).run c).2 := by
  unfold nextTransition
  split
  · exact .nothing
  · split_ifs
    · split
      · exact .nothing
      · rw [adds_requireObserved fun _ => rfl]
        exact .nothing
      · exact callback_adds r.id _ c
    · exact .nothing

/-- The coordinator which has registered the transition. -/
def registered (c : Coordinator) (t : Transition) : Coordinator :=
  ⟨c.currentProgramModel.setTransition t, c.systemAddressMapping, c.executed⟩

theorem keeps_registered (h : c.getStateSequence.Settled) (t : Transition) :
    Keeps c (registered c t) :=
  ⟨h, List.prefix_rfl, fun _ _ => id, fun _ _ => id⟩

/-- Registering a transition adds no object, so the counts agree. -/
theorem observeTransitions_run {ts : List ThreadRecord} {next : Transition}
    (h : (nextTransition mailboxes r).run c = (.ok next, c')) :
    (observeTransitions mailboxes (r :: ts)).run c =
      (observeTransitions mailboxes ts).run (registered c' next) := by
  have hregister : (observeRunnerTransition next).run c' = (.ok (), registered c' next) := rfl
  have hcount : (registered c' next).getStateSequence.representative.count =
      c'.getStateSequence.representative.count := rfl
  simp only [observeTransitions, run_bind, h, run_get, hregister, hcount, ne_eq, not_true_eq_false,
    if_false]

/-- **Registering the pending transitions** takes nothing away, also when an exception ends it. -/
theorem keeps_observeTransitions {ts : List ThreadRecord} (h : c.getStateSequence.Settled) :
    Keeps c ((observeTransitions mailboxes ts).run c).2 := by
  induction ts generalizing c with
  | nil => exact .refl h
  | cons r ts ih =>
    have hnext : Keeps c ((nextTransition mailboxes r).run c).2 :=
      keeps_of_adds h (adds_nextTransition c)
    rcases hrun : (nextTransition mailboxes r).run c with ⟨e | next, d⟩
    · rw [hrun] at hnext
      rw [observeTransitions, run_bind, hrun]
      exact hnext
    · rw [hrun] at hnext
      have hregistered := keeps_registered hnext.settled next
      rw [observeTransitions_run hrun]
      exact (hnext.trans hregistered).trans (ih hregistered.settled)

/-- So what has been restored stays. -/
theorem restored_of_keeps (hrec : Recorded recList queues)
    (hknows : Knows (recordedObjects recList).length (restoredEntries queues recList) c)
    (h : Keeps c c') : Restored queues recList c' := by
  have hs := hknows.settled
  refine ⟨fun location state hmem => ?_, fun r hr => ?_⟩
  · obtain ⟨i, hi⟩ := List.mem_iff_getElem?.mp (mem_objects.mpr hmem)
    obtain ⟨hlookup, hobject⟩ := hknows.lookup_location hrec hi
    refine ⟨_, ?_, restores_restoredObject fun r hr => hrec.queues location r (hr ▸ hmem)⟩
    rw [Coordinator.objectAt, h.addresses location i hlookup, Option.bind_some,
      h.objectState hs hobject]
  · obtain ⟨hlookup, hentry⟩ := hknows.lookup_thread hrec hr
    refine ⟨_, ?_, h.objectState hs (hknows.objectState hentry)⟩
    exact (h.objidForRunner hs hlookup).trans (hs.getObjidForRunnerAt hlookup)

theorem findsThreads_of_keeps (hrec : Recorded recList queues)
    (hknows : Knows (recordedObjects recList).length (restoredEntries queues recList) c)
    (h : Keeps c c') (hfinds : FindsThreads recList c) : FindsThreads recList c' := by
  intro r hr
  obtain ⟨hlookup, -⟩ := hknows.lookup_thread hrec hr
  have hobjid : c.getStateSequence.toState.objidForRunner r.id = _ :=
    hknows.settled.getObjidForRunnerAt hlookup
  rw [h.objidForRunner hknows.settled hlookup, hobjid]
  exact h.addresses _ _ ((hfinds r hr).trans hobjid)

end Keeps

/-! ### The transfer -/

section Transfer

variable {queues : Addr → ThreadQueue} {recList : List RecordedObject}

/-- The stream of a recorded list is read to its end. -/
theorem restoreModel_run (h : Recorded recList queues) :
    ∃ stream c, templateThread queues recList = some stream ∧
      (restoreModel stream).run unstarted = (.ok (sortedThreads recList), c) ∧
      Knows (recordedObjects recList).length (restoredEntries queues recList) c := by
  obtain ⟨stream, hstream⟩ := h.exists_templateThread
  obtain ⟨received, c₁, hread, hthreads, hknows₁⟩ := @readObjects_templateThread queues
    recList stream [] unstarted {} hstream knows_unstarted h.locations fun _ _ => rfl
  obtain ⟨c₂, hobserve, hknows₂⟩ := observeRunners_run (sortedThreads recList) hknows₁
  refine ⟨stream, c₂, hstream, ?_, ?_⟩
  · have hsorted : received.recordedThreads.insertionSort ThreadRecord.Precedes =
        sortedThreads recList := by
      rw [hthreads]
      rfl
    simp only [restoreModel, run_bind, hread, hsorted, hobserve, run_pure]
  · rw [List.nil_append, List.length_map] at hknows₂
    exact hknows₂

/-- **The transfer is lossless.** The reader restores every recorded object and thread and nothing
else, and finds the threads under their handles exactly when no address is recorded twice. What it
has restored stays when the pending transitions are looked up. -/
theorem transfer_lossless (h : Recorded recList queues) :
    ∃ stream, templateThread queues recList = some stream ∧
      (∃ ts c, (restoreModel stream).run unstarted = (.ok ts, c) ∧
        Restored queues recList c ∧ Exact recList c ∧
        (FindsThreads recList c ↔ (locations recList ++ handles recList).Nodup)) ∧
      ∀ mailboxes, recList.length ≤ objidInvalid →
        Restored queues recList
          ((doModelCheckingFromDmtcpCkptFile mailboxes stream).run unstarted).2 ∧
        ((locations recList ++ handles recList).Nodup → FindsThreads recList
          ((doModelCheckingFromDmtcpCkptFile mailboxes stream).run unstarted).2) := by
  obtain ⟨stream, c, hstream, hrun, hknows⟩ := restoreModel_run h
  have hfinds := hknows.findsThreads_iff h
  refine ⟨stream, hstream, ⟨_, c, hrun, hknows.restored h, hknows.exact h, hfinds⟩,
    fun mailboxes _ => ?_⟩
  have hkeeps : Keeps c ((doModelCheckingFromDmtcpCkptFile mailboxes stream).run unstarted).2 := by
    rw [doModelCheckingFromDmtcpCkptFile, run_bind, hrun]
    exact keeps_observeTransitions hknows.settled
  exact ⟨restored_of_keeps h hknows hkeeps,
    fun hnodup => findsThreads_of_keeps h hknows hkeeps (hfinds.mpr hnodup)⟩

/-- A mutex, its condition variable with a waiter in each state, and four threads. -/
private def checkpoint : List RecordedObject :=
  [.thread ⟨1000, 0, .alive⟩,
    .object 64 (.mutex ⟨.locked, 3⟩),
    .thread ⟨4000, 3, .alive⟩,
    .object 128 (.conditionVariable ⟨.waiting, 1, 64, 3, 500⟩),
    .thread ⟨3000, 2, .exited⟩,
    .object 256 (.semaphore ⟨2, .initialized⟩),
    .thread ⟨2000, 1, .alive⟩]

private def checkpointQueues (_ : Addr) : ThreadQueue :=
  [⟨1, .waiting⟩, ⟨0, .signaled⟩, ⟨3, .prewaiting⟩]

private theorem nodup_checkpointQueues (a : Addr) : (checkpointQueues a).threads.Nodup := by
  have hnodup : ([1, 0, 3] : List RunnerId).Nodup := by decide
  exact hnodup

private theorem recorded_checkpoint : Recorded checkpoint checkpointQueues :=
  ⟨by decide, by decide, by decide, fun _ r _ => nodup_checkpointQueues r.waitingThreads⟩

theorem transfer_lossless_checkpoint :
    ∃ stream, templateThread checkpointQueues checkpoint = some stream ∧
      ∃ ts c, (restoreModel stream).run unstarted = (.ok ts, c) ∧
        Restored checkpointQueues checkpoint c ∧ Exact checkpoint c ∧
        FindsThreads checkpoint c := by
  obtain ⟨stream, hstream, ⟨ts, c, hrun, hrestored, hexact, hfinds⟩, -⟩ :=
    transfer_lossless recorded_checkpoint
  exact ⟨stream, hstream, ts, c, hrun, hrestored, hexact, hfinds.mpr (by decide)⟩

/-- The handle of a thread which has exited was given to a new thread. -/
private def reusedHandle : List RecordedObject :=
  [.thread ⟨1000, 0, .alive⟩, .thread ⟨2000, 1, .exited⟩, .thread ⟨2000, 2, .alive⟩]

private theorem recorded_reusedHandle : Recorded reusedHandle checkpointQueues :=
  ⟨by decide, by decide, by decide, fun _ r _ => nodup_checkpointQueues r.waitingThreads⟩

/-- The new thread is not found under it. -/
theorem not_findsThreads_reusedHandle :
    Recorded reusedHandle checkpointQueues ∧
      ∃ stream ts c, templateThread checkpointQueues reusedHandle = some stream ∧
        (restoreModel stream).run unstarted = (.ok ts, c) ∧ ¬ FindsThreads reusedHandle c := by
  obtain ⟨stream, c, hstream, hrun, hknows⟩ := restoreModel_run recorded_reusedHandle
  refine ⟨recorded_reusedHandle, stream, _, c, hstream, hrun, ?_⟩
  rw [hknows.findsThreads_iff recorded_reusedHandle]
  decide

end Transfer

end Transfer

end McMini
