import McMini.Properties.Broadcast
import McMini.Properties.Restore

/-!
# The bookkeeping of waiting threads

The policy of a condition variable should know each waiting thread once: no thread is twice
in the queue, and a thread which has completed its wait is in none of the queue, the wake
groups and the set of the threads released by a broadcast until it falls asleep again.

Falling asleep appends the thread to the queue whether or not it is there, and waking up
erases its first occurrence only. So the bookkeeping is exact precisely when no thread falls
asleep while it is still queued (`exactBookkeeping_iff`). A thread queues itself once for
each wait. But the restored policy queues the threads recorded as waiting, and each of them
falls asleep once more when it executes its pending enqueue; only a broadcast which comes
first empties the queue in time.
-/

namespace McMini

open Foundation

/-- The thread `p` falls asleep on `c`. -/
def Transition.EnqueuesOn (t : Transition) (c : ObjId) (p : RunnerId) : Prop :=
  t.executor = p ∧ ∃ i, t.op = .conditionVariableEnqueueThread c i

/-- The thread `p` completes its wait on `c`. -/
def Transition.CompletesWaitOn (t : Transition) (c : ObjId) (p : RunnerId) : Prop :=
  t.executor = p ∧ ∃ i, t.op = .conditionVariableWait c i

/-- The threads recorded as waiting, in recorded order. -/
def recordedWaiters (threadStates : List (RunnerId × ConditionVariableStatus)) : List RunnerId :=
  (threadStates.filter fun ts => ts.2 == .prewaiting || ts.2 == .waiting).map Prod.fst

/-- Since the thread last fell asleep on `c`, or was restored as waiting on it, it has not
completed a wait and there was no broadcast. -/
def QueuedAfter (threadStates : List (RunnerId × ConditionVariableStatus)) (c : ObjId)
    (p : RunnerId) (tr : List Transition) : Prop :=
  SinceLast (fun t => t.EnqueuesOn c p)
    (fun t => t.CompletesWaitOn c p ∨ t.op = .conditionVariableBroadcast c)
    (p ∈ recordedWaiters threadStates) tr

/-- The thread has completed a wait on `c` and not fallen asleep on it since. -/
def LeftAfter (c : ObjId) (p : RunnerId) (tr : List Transition) : Prop :=
  SinceLast (fun t => t.CompletesWaitOn c p) (fun t => t.EnqueuesOn c p) False tr

/-- In every state of the run, no thread is queued twice, and no thread which completed its
wait is queued, in a wake group, or released by a broadcast. -/
def ExactBookkeeping (s₀ : State) (c : ObjId) (tr : List Transition) : Prop :=
  ∀ pre s cv, pre <+: tr → run s₀ pre = some s → s.objectState c = some (.conditionVariable cv) →
    cv.policy.waitQueue.Nodup ∧ ∀ p, LeftAfter c p pre → p ∉ cv.policy.waitQueue ∧
      p ∉ cv.policy.broadcastEligibleThreads ∧ ¬ ∃ wg ∈ cv.policy.wakeGroups, p ∈ wg

/-- No thread falls asleep on `c` while it is still queued. -/
def EnqueuesAfterLeaving (threadStates : List (RunnerId × ConditionVariableStatus)) (c : ObjId)
    (tr : List Transition) : Prop :=
  ∀ pre t, pre ++ [t] <+: tr → ∀ p, t.EnqueuesOn c p → ¬ QueuedAfter threadStates c p pre

/-! ### One step -/

section

variable {s s' : State} {t : Transition} {c : ObjId} {p tid : RunnerId} {location : Addr}
  {cv cv' : ConditionVariable} {mutex : Addr} {count : ℤ} {state : ConditionVariableState}
  {threadStates : List (RunnerId × ConditionVariableStatus)}

/-- The restored policy queues the threads recorded as waiting. -/
theorem construct_waitQueue :
    (ConditionVariable.construct state tid mutex count threadStates).policy.waitQueue =
      recordedWaiters threadStates := by
  have queued : ∀ (ts : List (RunnerId × ConditionVariableStatus))
      (q : ConditionVariableArbitraryPolicy),
      (ts.foldl (fun q ts => q.addWaiterWithState ts.1 ts.2) q).waitQueue =
        q.waitQueue ++ ts.map Prod.fst := by
    intro ts
    induction ts with
    | nil => intro q; simp
    | cons ts₁ ts ih =>
      intro q
      rw [List.foldl_cons, ih]
      simp [ConditionVariableArbitraryPolicy.addWaiterWithState,
        ConditionVariableArbitraryPolicy.updateThreadCvState,
        ConditionVariableSingleGroupPolicy.addWaiter]
  have grouped : ∀ (q : ConditionVariableArbitraryPolicy) (threads : List RunnerId),
      (q.addToWakeGroups threads).waitQueue = q.waitQueue := by
    intro q threads
    rw [ConditionVariableArbitraryPolicy.addToWakeGroups]
    split_ifs <;> rfl
  rw [ConditionVariable.construct, grouped, queued]
  rfl

/-- A thread which is queued once and wakes up is forgotten. -/
theorem forgotten_of_wait (hnodup : cv.policy.waitQueue.Nodup)
    (h : cv.wait p location = some cv') : Forgotten p cv' := by
  obtain ⟨hspurious, -, hqueue, -, hwake⟩ := ConditionVariable.wait_eq_some h
  rw [ConditionVariableDefaultPolicy.wakeThread] at hwake
  refine ⟨hspurious, by rw [hqueue]; exact hnodup.not_mem_erase, ?_, ?_⟩
  · split_ifs at hwake with heligible hgrouped
    · rw [← Option.some.inj hwake]
      exact Finset.notMem_erase _ _
    · rw [← Option.some.inj hwake]
      exact heligible
  · -- the thread is removed from every group which is left
    rintro ⟨wg, hwg, hp⟩
    split_ifs at hwake
    · rw [← Option.some.inj hwake] at hwg
      obtain ⟨wg₀, -, rfl⟩ := List.mem_map.mp hwg
      exact (WakeGroup.mem_removeCandidateThread.mp hp).2 rfl
    · rw [← Option.some.inj hwake] at hwg
      obtain ⟨wg₀, -, rfl⟩ := List.mem_map.mp hwg
      exact (WakeGroup.mem_removeCandidateThread.mp hp).2 rfl

/-- Who is queued after a step. -/
theorem ConditionVariableEffect.mem_waitQueue_iff (h : ConditionVariableEffect s t c cv cv')
    (hinit : t.op ≠ .conditionVariableInit c) (hdestroy : t.op ≠ .conditionVariableDestroy c)
    (hnodup : cv.policy.waitQueue.Nodup) :
    p ∈ cv'.policy.waitQueue ↔ t.EnqueuesOn c p ∨
      ¬ (t.CompletesWaitOn c p ∨ t.op = .conditionVariableBroadcast c) ∧
        p ∈ cv.policy.waitQueue := by
  cases h with
  | unchanged _ henqueue hwait _ _ hlost =>
    by_cases hop : t.op = .conditionVariableBroadcast c
    · -- a broadcast which finds nobody queued
      have hempty : cv.policy.waitQueue = [] := by
        simpa [ConditionVariable.hasWaiters, ConditionVariableArbitraryPolicy.hasWaiters]
          using (hlost hop).2
      simp [Transition.EnqueuesOn, hempty, hop]
    · simp [Transition.EnqueuesOn, Transition.CompletesWaitOn, henqueue, hwait, hop]
  | init hop => exact absurd hop hinit
  | enqueue hop _ _ =>
    simp [Transition.EnqueuesOn, Transition.CompletesWaitOn, hop, or_comm, eq_comm]
  | wait hop _ _ _ _ _ hnew =>
    rw [(ConditionVariable.wait_eq_some hnew).2.2.1, hnodup.mem_erase_iff]
    simp [Transition.EnqueuesOn, Transition.CompletesWaitOn, hop, eq_comm]
  | signal hop _ _ => simp [Transition.EnqueuesOn, Transition.CompletesWaitOn, hop]
  | broadcast hop _ _ => simp [Transition.EnqueuesOn, hop]
  | destroy hop _ _ => exact absurd hop hdestroy

/-- After a step no thread is queued twice, if none was and none fell asleep in the queue. -/
theorem ConditionVariableEffect.nodup_waitQueue_iff (h : ConditionVariableEffect s t c cv cv')
    (hinit : t.op ≠ .conditionVariableInit c) (hdestroy : t.op ≠ .conditionVariableDestroy c)
    (hnodup : cv.policy.waitQueue.Nodup) :
    cv'.policy.waitQueue.Nodup ↔ ∀ p, t.EnqueuesOn c p → p ∉ cv.policy.waitQueue := by
  cases h with
  | unchanged _ henqueue _ _ _ _ => simp [Transition.EnqueuesOn, henqueue, hnodup]
  | init hop => exact absurd hop hinit
  | enqueue hop _ _ =>
    rw [ConditionVariable.enqueueThread_waitQueue,
      (List.perm_append_singleton _ _).nodup_iff, List.nodup_cons]
    simp [Transition.EnqueuesOn, hop, hnodup]
  | wait hop _ _ _ _ _ hnew =>
    rw [(ConditionVariable.wait_eq_some hnew).2.2.1]
    simp [Transition.EnqueuesOn, hop, hnodup.erase]
  | signal hop _ _ => simp [Transition.EnqueuesOn, hop, hnodup]
  | broadcast hop _ _ => simp [Transition.EnqueuesOn, hop]
  | destroy hop _ _ => exact absurd hop hdestroy

/-! ### Runs -/

/-- The policy knows each thread as the history has it. -/
structure Bookkeeping (threadStates : List (RunnerId × ConditionVariableStatus)) (c : ObjId)
    (tr : List Transition) (cv : ConditionVariable) : Prop where
  nodup : cv.policy.waitQueue.Nodup
  queued : ∀ p, p ∈ cv.policy.waitQueue ↔ QueuedAfter threadStates c p tr
  left : ∀ p, LeftAfter c p tr → Forgotten p cv

variable {s₀ : State} {tr : List Transition}

/-- It does so after a step in which no queued thread falls asleep. -/
theorem Bookkeeping.step (h : Bookkeeping threadStates c tr cv)
    (heffect : ConditionVariableEffect s t c cv cv') (hinit : t.op ≠ .conditionVariableInit c)
    (hdestroy : t.op ≠ .conditionVariableDestroy c)
    (hleft : ∀ p, t.EnqueuesOn c p → ¬ QueuedAfter threadStates c p tr) :
    Bookkeeping threadStates c (tr ++ [t]) cv' := by
  refine ⟨?_, fun p => ?_, fun p hp => ?_⟩
  · rw [heffect.nodup_waitQueue_iff hinit hdestroy h.nodup]
    intro p hp hqueued
    exact hleft p hp ((h.queued p).mp hqueued)
  · rw [heffect.mem_waitQueue_iff hinit hdestroy h.nodup, h.queued, QueuedAfter, QueuedAfter,
      sinceLast_concat]
  · rcases sinceLast_concat.mp hp with ⟨rfl, i, hop⟩ | ⟨hne, hp⟩
    · -- the thread completes its wait in this step
      cases heffect with
      | wait _ _ _ _ _ _ hnew => exact forgotten_of_wait h.nodup hnew
      | unchanged _ _ hwait => exact absurd hop (hwait i)
      | init hop' | enqueue hop' | signal hop' | broadcast hop' | destroy hop' =>
        simp [hop'] at hop
    · exact (h.left p hp).step heffect fun i hop heq => hne ⟨heq, i, hop⟩

/-- The condition variable `c` is the one which the constructor builds from the recorded
thread states, and none of the transitions initializes or destroys it. -/
structure BuiltFrom (threadStates : List (RunnerId × ConditionVariableStatus)) (s₀ : State)
    (c : ObjId) (tr : List Transition) : Prop where
  nodup : (threadStates.map Prod.fst).Nodup
  built : ∃ state tid mutex count, s₀.objectState c = some (.conditionVariable
    (.construct state tid mutex count threadStates))
  kept : ∀ t ∈ tr, t.op ≠ .conditionVariableInit c ∧ t.op ≠ .conditionVariableDestroy c

theorem BuiltFrom.of_prefix {pre : List Transition} (h : BuiltFrom threadStates s₀ c tr)
    (hpre : pre <+: tr) : BuiltFrom threadStates s₀ c pre :=
  ⟨h.nodup, h.built, fun t ht => h.kept t (hpre.subset ht)⟩

theorem EnqueuesAfterLeaving.of_prefix {pre : List Transition}
    (h : EnqueuesAfterLeaving threadStates c tr) (hpre : pre <+: tr) :
    EnqueuesAfterLeaving threadStates c pre :=
  fun pre' t ht => h pre' t (ht.trans hpre)

/-- The policy is exact after a run in which no queued thread falls asleep. -/
theorem bookkeeping_of_run (hbuilt : BuiltFrom threadStates s₀ c tr)
    (hleft : EnqueuesAfterLeaving threadStates c tr) (hrun : run s₀ tr = some s) :
    ∃ cv, s.objectState c = some (.conditionVariable cv) ∧ Bookkeeping threadStates c tr cv := by
  refine run_induction (P := fun tr s => BuiltFrom threadStates s₀ c tr →
    EnqueuesAfterLeaving threadStates c tr → ∃ cv,
      s.objectState c = some (.conditionVariable cv) ∧ Bookkeeping threadStates c tr cv)
    ?_ ?_ hrun hbuilt hleft
  · intro hbuilt _
    obtain ⟨state, tid, mutex, count, hc⟩ := hbuilt.built
    refine ⟨_, hc, ?_, fun p => ?_, fun p hp => absurd hp (by simp [LeftAfter])⟩
    · rw [construct_waitQueue]
      exact hbuilt.nodup.sublist (List.filter_sublist.map _)
    · rw [construct_waitQueue, QueuedAfter, sinceLast_nil]
  · intro tr s t s' _ ih hstep hbuilt hleft
    have hpre : tr <+: tr ++ [t] := List.prefix_append _ _
    obtain ⟨cv, hc, hbook⟩ := ih (hbuilt.of_prefix hpre) (hleft.of_prefix hpre)
    obtain ⟨cv', hc', heffect⟩ := hstep.conditionVariable hc
    obtain ⟨hinit, hdestroy⟩ := hbuilt.kept t (by simp)
    exact ⟨cv', hc', hbook.step heffect hinit hdestroy (hleft tr t List.prefix_rfl)⟩

/-- **When the bookkeeping is exact.** In a run on a condition variable which was initialized,
or restored from a record of distinct threads, the queue never holds a thread twice and the
policy forgets each thread which completes its wait, exactly when no thread falls asleep
while it is still queued. -/
theorem exactBookkeeping_iff (hbuilt : BuiltFrom threadStates s₀ c tr)
    (hrun : run s₀ tr = some s) :
    ExactBookkeeping s₀ c tr ↔ EnqueuesAfterLeaving threadStates c tr := by
  constructor
  · refine run_induction (P := fun tr _ => BuiltFrom threadStates s₀ c tr →
      ExactBookkeeping s₀ c tr → EnqueuesAfterLeaving threadStates c tr) ?_ ?_ hrun hbuilt
    · intro _ _ pre t hpre
      simp at hpre
    · intro tr s t s' hrun ih hstep hbuilt hexact
      have hpre : tr <+: tr ++ [t] := List.prefix_append _ _
      have hleft := ih (hbuilt.of_prefix hpre) fun pre s cv h => hexact pre s cv (h.trans hpre)
      refine forall_prefix_concat.mpr ⟨hleft, ?_⟩
      -- the queue holds no thread twice after the last step either
      obtain ⟨cv, hc, hbook⟩ := bookkeeping_of_run (hbuilt.of_prefix hpre) hleft hrun
      obtain ⟨cv', hc', heffect⟩ := hstep.conditionVariable hc
      obtain ⟨hinit, hdestroy⟩ := hbuilt.kept t (by simp)
      have hrun' : run s₀ (tr ++ [t]) = some s' :=
        run_concat_eq_some.mpr ⟨s, hrun, fire_eq_some_iff_step.mpr hstep⟩
      have hnodup := (hexact _ s' cv' List.prefix_rfl hrun' hc').1
      rw [heffect.nodup_waitQueue_iff hinit hdestroy hbook.nodup] at hnodup
      intro p hp hqueued
      exact hnodup p hp ((hbook.queued p).mpr hqueued)
  · intro hleft pre s cv hpre hrun hc
    obtain ⟨cv', hc', hbook⟩ := bookkeeping_of_run (hbuilt.of_prefix hpre) (hleft.of_prefix hpre) hrun
    obtain rfl : cv' = cv := by simpa [hc'] using hc
    refine ⟨hbook.nodup, fun p hp => ?_⟩
    have hforgotten := hbook.left p hp
    exact ⟨hforgotten.notQueued, hforgotten.notEligible, hforgotten.notGrouped⟩

end

/-- Two running threads, a free mutex and a condition variable rebuilt from the list. -/
private def restoredWaiters (threadStates : List (RunnerId × ConditionVariableStatus)) : State :=
  .ofRunnersAndObjects [⟨.running⟩, ⟨.running⟩]
    [.mutex ⟨.unlocked, 64, ridInvalid⟩,
      .conditionVariable (.construct .waiting ridInvalid 64 0 threadStates)]

/-- Thread 1 falls asleep, is signaled by thread 0, and completes its wait. -/
private def waitOnce : List Transition :=
  [⟨1, .mutexLock 2⟩, ⟨1, .conditionVariableEnqueueThread 3 2⟩, ⟨0, .conditionVariableSignal 3⟩,
    ⟨1, .conditionVariableWait 3 2⟩]

/-- Thread 1 was restored as waiting: its pending enqueue queues it a second time, and after
its wait it is still queued. -/
theorem restored_waiter_stays_queued :
    BuiltFrom [(1, .waiting)] (restoredWaiters [(1, .waiting)]) 3 waitOnce ∧
    (∃ s cv, run (restoredWaiters [(1, .waiting)]) waitOnce = some s ∧
      s.objectState 3 = some (.conditionVariable cv) ∧ LeftAfter 3 1 waitOnce ∧
      cv.policy.waitQueue = [1]) ∧
    ¬ ExactBookkeeping (restoredWaiters [(1, .waiting)]) 3 waitOnce := by
  have hleft : LeftAfter 3 1 waitOnce :=
    .inl ⟨waitOnce.take 3, ⟨1, .conditionVariableWait 3 2⟩, [], rfl, ⟨rfl, 2, rfl⟩, by simp⟩
  obtain ⟨s, hrun⟩ : ∃ s, run (restoredWaiters [(1, .waiting)]) waitOnce = some s := ⟨_, rfl⟩
  obtain ⟨cv, hc, hqueue⟩ : ∃ cv, s.objectState 3 = some (.conditionVariable cv) ∧
      cv.policy.waitQueue = [1] := by
    obtain rfl := Option.some.inj hrun
    exact ⟨_, rfl, rfl⟩
  refine ⟨⟨by simp, ⟨.waiting, ridInvalid, 64, 0, rfl⟩, by decide⟩,
    ⟨s, cv, hrun, hc, hleft, hqueue⟩, fun hexact => ?_⟩
  have hnot := ((hexact waitOnce s cv List.prefix_rfl hrun hc).2 1 hleft).1
  exact hnot (hqueue ▸ List.mem_singleton_self 1)

/-- On a condition variable which nobody was recorded as waiting on, the same wait is exact. -/
theorem exactBookkeeping_waitOnce : ExactBookkeeping (restoredWaiters []) 3 waitOnce := by
  have hbuilt : BuiltFrom [] (restoredWaiters []) 3 waitOnce :=
    ⟨List.nodup_nil, ⟨.waiting, ridInvalid, 64, 0, rfl⟩, by decide⟩
  obtain ⟨s, hrun⟩ : ∃ s, run (restoredWaiters []) waitOnce = some s := ⟨_, rfl⟩
  refine (exactBookkeeping_iff hbuilt hrun).mpr ?_
  -- the one enqueue comes after the mutex was locked, when nobody is queued
  refine forall_prefix_cons.mpr ⟨?_, forall_prefix_cons.mpr ⟨?_, forall_prefix_cons.mpr ⟨?_,
    forall_prefix_cons.mpr ⟨?_, fun pre t hpre => by simp at hpre⟩⟩⟩⟩
  · rintro p ⟨-, i, hop⟩
    cases hop
  · intro p _
    simp [QueuedAfter, SinceLast, Transition.EnqueuesOn, recordedWaiters, List.cons_eq_append_iff]
  · rintro p ⟨-, i, hop⟩
    cases hop
  · rintro p ⟨-, i, hop⟩
    cases hop

end McMini
