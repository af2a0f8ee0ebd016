import McMini.Model.Footprint

/-!
# Broadcasts

A broadcast releases every thread which waits on the condition variable, and each of them
should be able to complete its wait from then on, whenever its mutex is free. Eligibility
itself is never lost: it is kept in the policy, where only the thread itself uses it up.
But the wait also examines the condition variable's state and its one associated mutex,
and two operations of others interfere:

* after the broadcast nobody is queued, so the condition variable may be destroyed, which
  discards the policy together with the released threads;
* a thread which falls asleep with another mutex replaces the associated mutex, and the
  released threads fail the comparison with theirs.

These are the only ways in which a broadcast is revoked
(`wait_enabled_iff_of_broadcast`).
-/

namespace McMini

open Foundation

/-- The object `i` is a mutex at the given location. -/
def MutexAt (s : State) (i : ObjId) (location : Addr) : Prop :=
  ∃ m, s.objectState i = some (.mutex m) ∧ m.location = location

/-- The last thread which fell asleep on `c` in the history did so with a mutex at the
given location. -/
def LastEnqueuedAt (s : State) (c : ObjId) (location : Addr) (tr : List Transition) : Prop :=
  SinceLast
    (fun t => ∃ i, t.op = .conditionVariableEnqueueThread c i ∧ MutexAt s i location)
    (fun t => ∃ i, t.op = .conditionVariableEnqueueThread c i) False tr

section

variable {s s' : State} {t : Transition} {c i m : ObjId} {tid : RunnerId} {location : Addr}
  {tr : List Transition}

theorem MutexAt.unique {location' : Addr} (h : MutexAt s i location)
    (h' : MutexAt s i location') : location = location' := by
  obtain ⟨m, hm, rfl⟩ := h
  obtain ⟨m', hm', rfl⟩ := h'
  cases hm.symm.trans hm'
  rfl

/-- Mutexes stay at their locations. -/
theorem Step.mutexAt_iff (h : Step s t s') : MutexAt s' i location ↔ MutexAt s i location := by
  have keep : ∀ {location}, MutexAt s i location → MutexAt s' i location := by
    rintro location ⟨m, hm, rfl⟩
    obtain ⟨m', hm', heffect⟩ := h.mutex hm
    exact ⟨m', hm', by cases heffect <;> rfl⟩
  refine ⟨fun h' => ?_, keep⟩
  -- no object becomes a mutex, so it was one, and at the same location
  obtain ⟨m', hm', rfl⟩ := h'
  have htype := h.objectType_eq i
  rw [hm', Option.map_some, eq_comm, Option.map_eq_some_iff] at htype
  obtain ⟨o, ho, hmutex⟩ := htype
  obtain ⟨m, rfl⟩ := VisibleObjectState.objectType_eq_mutex.mp hmutex
  have hm : MutexAt s i m.location := ⟨m, ho, rfl⟩
  exact (keep hm).unique ⟨m', hm', rfl⟩ ▸ hm

theorem Step.lastEnqueuedAt_iff (h : Step s t s') :
    LastEnqueuedAt s' c location tr ↔ LastEnqueuedAt s c location tr := by
  simp only [LastEnqueuedAt, h.mutexAt_iff]

/-! ### A thread which fell asleep -/

/-- The condition variable `c`, while the thread `tid` is waiting on it and it has not been
destroyed. The history `before` ends with the thread's enqueue, and `after` follows it. -/
structure Asleep (s : State) (c : ObjId) (tid : RunnerId) (before after : List Transition)
    (cv : ConditionVariable) : Prop where
  noSpurious : cv.numRemainingSpuriousWakeups = 0
  usable : cv.Usable
  waiting : tid ∈ cv.policy.waitQueue ∨ tid ∈ cv.policy.broadcastEligibleThreads
  released : (∃ u ∈ after, u.op = .conditionVariableBroadcast c) →
    tid ∈ cv.policy.broadcastEligibleThreads
  associated : ∀ location,
    cv.associatedMutex = location ↔ LastEnqueuedAt s c location (before ++ after)

/-- The condition variable no longer knows the thread `tid`. -/
structure Forgotten (tid : RunnerId) (cv : ConditionVariable) : Prop where
  noSpurious : cv.numRemainingSpuriousWakeups = 0
  notQueued : tid ∉ cv.policy.waitQueue
  notEligible : tid ∉ cv.policy.broadcastEligibleThreads
  notGrouped : ¬ ∃ wg ∈ cv.policy.wakeGroups, tid ∈ wg

variable {cv cv' : ConditionVariable} {before after : List Transition}

/-- A step of another thread keeps the thread waiting, unless it initializes or destroys
the condition variable. -/
theorem Asleep.step (h : Asleep s c tid before after cv) (hstep : Step s t s')
    (heffect : ConditionVariableEffect s t c cv cv') (hne : t.executor ≠ tid)
    (hinit : t.op ≠ .conditionVariableInit c) (hdestroy : t.op ≠ .conditionVariableDestroy c) :
    Asleep s' c tid before (after ++ [t]) cv' := by
  have concat : ∀ location, LastEnqueuedAt s' c location (before ++ (after ++ [t])) ↔
      (∃ i, t.op = .conditionVariableEnqueueThread c i ∧ MutexAt s i location) ∨
        (¬ ∃ i, t.op = .conditionVariableEnqueueThread c i) ∧
          LastEnqueuedAt s c location (before ++ after) := by
    intro location
    rw [hstep.lastEnqueuedAt_iff, ← List.append_assoc]
    exact sinceLast_concat
  -- without an enqueue the last enqueue is the same as before
  have same : (∀ i, t.op ≠ .conditionVariableEnqueueThread c i) → ∀ location,
      cv.associatedMutex = location ↔
        LastEnqueuedAt s' c location (before ++ (after ++ [t])) := by
    intro hop location
    rw [concat, h.associated]
    simp [hop]
  have broadcasts : t.op ≠ .conditionVariableBroadcast c →
      (∃ u ∈ after ++ [t], u.op = .conditionVariableBroadcast c) →
      tid ∈ cv.policy.broadcastEligibleThreads := by
    rintro hop ⟨u, hu, hbroadcast⟩
    rcases List.mem_append.mp hu with hu | hu
    · exact h.released ⟨u, hu, hbroadcast⟩
    · exact absurd (List.mem_singleton.mp hu ▸ hbroadcast) hop
  cases heffect with
  | unchanged _ hop _ _ _ hlost =>
    refine ⟨h.noSpurious, h.usable, h.waiting, fun hb => ?_, same hop⟩
    by_cases hop' : t.op = .conditionVariableBroadcast c
    · -- a broadcast which finds nobody queued: the thread was released before
      have hempty : cv.policy.waitQueue = [] := by
        simpa [ConditionVariable.hasWaiters, ConditionVariableArbitraryPolicy.hasWaiters]
          using (hlost hop').2
      exact h.waiting.resolve_left (by simp [hempty])
    · exact broadcasts hop' hb
  | init hop => exact absurd hop hinit
  | @enqueue i m hop hm _ =>
    refine ⟨rfl, ⟨rfl, rfl⟩, ?_, fun hb => ?_, fun location => ?_⟩
    · exact h.waiting.imp (by simp +contextual) (by simp)
    · simpa using broadcasts (by simp [hop]) hb
    · rw [concat, ConditionVariable.enqueueThread_associatedMutex]
      have hon : MutexAt s i location ↔ m.location = location := by simp [MutexAt, hm]
      simp [hop, hon]
  | @wait i m newCv hop _ _ _ hloc _ hnew =>
    obtain ⟨hspurious, hassoc, -, -, -⟩ := ConditionVariable.wait_eq_some hnew
    obtain ⟨hqueue, heligible, -⟩ := ConditionVariable.wait_mem hnew hne.symm
    refine ⟨hspurious, ?_, ?_, fun hb => ?_, ?_⟩
    · exact ConditionVariable.usable_of_currentState (ConditionVariable.wait_currentState hnew)
    · rw [hqueue, heligible]
      exact h.waiting
    · rw [heligible]
      exact broadcasts (by simp [hop]) hb
    · rw [hassoc, hloc]
      exact same (by simp [hop])
  | signal hop hu _ =>
    refine ⟨rfl, ?_, by simpa using h.waiting, fun hb => ?_, same (by simp [hop])⟩
    · exact ConditionVariable.usable_of_currentState rfl
    · simpa using broadcasts (by simp [hop]) hb
  | broadcast hop hu _ =>
    have hreleased : tid ∈ (cv.broadcast t.executor).policy.broadcastEligibleThreads := by
      rw [ConditionVariable.mem_broadcast_broadcastEligibleThreads]
      exact h.waiting.elim (fun hq => .inr (.inr hq)) .inl
    refine ⟨rfl, ?_, .inr hreleased, fun _ => hreleased, same (by simp [hop])⟩
    exact ConditionVariable.usable_of_currentState (p := (cv.broadcast t.executor).policy) rfl
  | destroy hop _ _ => exact absurd hop hdestroy

/-- Destroying the condition variable forgets the thread. -/
theorem forgotten_of_destroy (heffect : ConditionVariableEffect s t c cv cv')
    (hdestroy : t.op = .conditionVariableDestroy c) : Forgotten tid cv' := by
  cases heffect with
  | unchanged _ _ _ hop => exact absurd hdestroy hop
  | destroy => exact ⟨rfl, by simp, by simp, by simp⟩
  | init h | enqueue h | wait h | signal h | broadcast h => simp [h] at hdestroy

theorem Forgotten.waiterCanExit_eq_false (h : Forgotten tid cv) :
    cv.waiterCanExit tid = false := by
  have hexit : ¬ cv.policy.threadCanExit tid = true := fun hexit =>
    (ConditionVariableDefaultPolicy.threadCanExit_iff.mp hexit).elim h.notEligible h.notGrouped
  simp [ConditionVariable.waiterCanExit, h.noSpurious, hexit]

/-- Only falling asleep again brings a forgotten thread back. -/
theorem Forgotten.step (h : Forgotten tid cv) (heffect : ConditionVariableEffect s t c cv cv')
    (henqueue : ∀ i, t.op = .conditionVariableEnqueueThread c i → t.executor ≠ tid) :
    Forgotten tid cv' := by
  cases heffect with
  | unchanged => exact h
  | init => exact ⟨rfl, by simp, by simp, by simp⟩
  | destroy => exact ⟨rfl, by simp, by simp, by simp⟩
  | enqueue hop _ _ =>
    exact ⟨rfl, by simpa [(henqueue _ hop).symm] using h.notQueued, by simpa using h.notEligible,
      by simpa using h.notGrouped⟩
  | wait _ _ _ hexit _ _ hnew =>
    have hne : t.executor ≠ tid := by
      intro heq
      rw [heq, h.waiterCanExit_eq_false] at hexit
      exact Bool.false_ne_true hexit
    obtain ⟨hqueue, heligible, hgroup⟩ := ConditionVariable.wait_mem hnew hne.symm
    exact ⟨(ConditionVariable.wait_eq_some hnew).1, by rw [hqueue]; exact h.notQueued,
      by rw [heligible]; exact h.notEligible, fun hg => h.notGrouped (hgroup hg)⟩
  | signal =>
    refine ⟨rfl, by simpa using h.notQueued, by simpa using h.notEligible, ?_⟩
    rintro ⟨wg, hwg, htid⟩
    rcases ConditionVariable.mem_signal_wakeGroups hwg with hwg | rfl
    · exact h.notGrouped ⟨wg, hwg, htid⟩
    · exact h.notQueued (ConditionVariable.mem_waitingThreads.mp htid).1
  | broadcast =>
    refine ⟨rfl, by simp, ?_, by simp⟩
    rw [ConditionVariable.mem_broadcast_broadcastEligibleThreads]
    rintro (hE | hG | hQ)
    · exact h.notEligible hE
    · exact h.notGrouped hG
    · exact h.notQueued hQ

/-- A step leaves a runner active unless the runner itself takes it. -/
theorem Step.active_of_ne (h : Step s t s') (ha : s.Active tid) (hne : t.executor ≠ tid) :
    s'.Active tid := by
  obtain ⟨th, hth, heffect⟩ := h.thread ha
  cases heffect with
  | unrelated _ => exact hth
  | create _ => exact hth
  | exit hex _ _ => exact absurd hex hne

/-- The thread falls asleep. -/
theorem asleep_of_enqueue (before : List Transition)
    (hstep : Step s ⟨tid, .conditionVariableEnqueueThread c m⟩ s') :
    s'.Active tid ∧ ∃ cv, s'.objectState c = some (.conditionVariable cv) ∧
      Asleep s' c tid (before ++ [⟨tid, .conditionVariableEnqueueThread c m⟩]) [] cv := by
  have hlast : ∀ location, LastEnqueuedAt s' c location
      (before ++ [⟨tid, .conditionVariableEnqueueThread c m⟩] ++ []) ↔ MutexAt s m location := by
    intro location
    rw [List.append_nil, hstep.lastEnqueuedAt_iff, LastEnqueuedAt, sinceLast_concat]
    simp
  obtain ⟨th, hth, hthread⟩ := hstep.thread hstep.active
  obtain ⟨cv₀, hc₀⟩ : ∃ cv, s.objectState c = some (.conditionVariable cv) := by
    cases hstep with
    | conditionVariableEnqueueThread _ hcv _ _ => exact ⟨_, hcv⟩
  obtain ⟨cv', hc', heffect⟩ := hstep.conditionVariable hc₀
  refine ⟨?_, cv', hc', ?_⟩
  · cases hstep with
    | conditionVariableEnqueueThread ha hcv hm' _ =>
      exact State.HasThread.setObjectState (State.HasThread.setObjectState ha hcv (by simp))
        (State.setObjectState_of_type_ne hcv hm' (by simp)) (by simp)
  · cases heffect with
    | unchanged _ hop => exact absurd rfl (hop m)
    | @enqueue i mu hop hm _ =>
      obtain rfl : m = i := by simpa using hop
      refine ⟨rfl, ⟨rfl, rfl⟩, .inl (by simp), by simp, fun location => ?_⟩
      rw [hlast, ConditionVariable.enqueueThread_associatedMutex]
      simp [MutexAt, hm]
    | init h | wait h | signal h | broadcast h | destroy h => cases h

/-- After its enqueue a thread which does nothing is asleep, or forgotten if the condition
variable was destroyed since. -/
theorem asleep_of_run {s₀ : State} (before : List Transition)
    (hstart : Step s₀ ⟨tid, .conditionVariableEnqueueThread c m⟩ s)
    (hrun : run s after = some s') (hother : ∀ u ∈ after, u.executor ≠ tid)
    (hinit : ∀ u ∈ after, u.op ≠ .conditionVariableInit c) :
    s'.Active tid ∧ ∃ cv, s'.objectState c = some (.conditionVariable cv) ∧
      ((∀ u ∈ after, u.op ≠ .conditionVariableDestroy c) →
        Asleep s' c tid (before ++ [⟨tid, .conditionVariableEnqueueThread c m⟩]) after cv) ∧
      ((∃ u ∈ after, u.op = .conditionVariableDestroy c) → Forgotten tid cv) := by
  refine run_induction (P := fun after s' => (∀ u ∈ after, u.executor ≠ tid) →
    (∀ u ∈ after, u.op ≠ .conditionVariableInit c) → s'.Active tid ∧
    ∃ cv, s'.objectState c = some (.conditionVariable cv) ∧
      ((∀ u ∈ after, u.op ≠ .conditionVariableDestroy c) →
        Asleep s' c tid (before ++ [⟨tid, .conditionVariableEnqueueThread c m⟩]) after cv) ∧
      ((∃ u ∈ after, u.op = .conditionVariableDestroy c) → Forgotten tid cv))
    ?_ ?_ hrun hother hinit
  · intro _ _
    obtain ⟨ha, cv, hc, hasleep⟩ := asleep_of_enqueue before hstart
    exact ⟨ha, cv, hc, fun _ => hasleep, by simp⟩
  · intro after s u s' _ ih hstep hother hinit
    simp only [List.mem_append, List.mem_singleton] at hother hinit ⊢
    obtain ⟨ha, cv, hc, hasleep, hforgotten⟩ :=
      ih (fun v hv => hother v (.inl hv)) (fun v hv => hinit v (.inl hv))
    have hne := hother u (.inr rfl)
    obtain ⟨cv', hc', heffect⟩ := hstep.conditionVariable hc
    refine ⟨hstep.active_of_ne ha hne, cv', hc', fun h => ?_, ?_⟩
    · exact (hasleep fun v hv => h v (.inl hv)).step hstep heffect hne (hinit u (.inr rfl))
        (h u (.inr rfl))
    · rintro ⟨v, hv | rfl, hop⟩
      · exact (hforgotten ⟨v, hv, hop⟩).step heffect fun _ _ => hne
      · exact forgotten_of_destroy heffect hop

/-- **When a broadcast is kept.** The thread `tid` fell asleep on `c` and did nothing
since; a broadcast was executed in the meantime, and `c` was not initialized again. In a
state in which the mutex `m` is unlocked the thread's wait with it is enabled exactly when
`c` has not been destroyed since the enqueue and the last thread which fell asleep on `c`
did so with a mutex at the location of `m`. -/
theorem wait_enabled_iff_of_broadcast {s₀ : State} {p : RunnerId} {n : ObjId} {mu : Mutex}
    (hrun : run s₀ (before ++ [⟨tid, .conditionVariableEnqueueThread c n⟩] ++ after) = some s)
    (hbroadcast : ⟨p, .conditionVariableBroadcast c⟩ ∈ after)
    (hother : ∀ u ∈ after, u.executor ≠ tid)
    (hinit : ∀ u ∈ after, u.op ≠ .conditionVariableInit c)
    (hm : s.objectState m = some (.mutex mu)) (hfree : mu.isUnlocked = true) :
    Enabled ⟨tid, .conditionVariableWait c m⟩ s ↔
      (∀ u ∈ after, u.op ≠ .conditionVariableDestroy c) ∧
        LastEnqueuedAt s c mu.location
          (before ++ [⟨tid, .conditionVariableEnqueueThread c n⟩] ++ after) := by
  obtain ⟨s₁, hrun₁, hrun₂⟩ := run_append_eq_some.mp hrun
  obtain ⟨s₂, -, hstart⟩ := run_concat_eq_some.mp hrun₁
  obtain ⟨ha, cv, hc, hasleep, hforgotten⟩ :=
    asleep_of_run before (fire_eq_some_iff_step.mp hstart) hrun₂ hother hinit
  constructor
  · intro h
    obtain ⟨s', hstep⟩ := enabled_iff_step.mp h
    cases hstep with
    | conditionVariableWait _ hc' hm' _ hexit hloc _ _ =>
      cases hc.symm.trans hc'
      cases hm.symm.trans hm'
      have hdestroy : ∀ u ∈ after, u.op ≠ .conditionVariableDestroy c := by
        intro u hu hop
        have hf := hforgotten ⟨u, hu, hop⟩
        rw [hf.waiterCanExit_eq_false] at hexit
        exact Bool.false_ne_true hexit
      exact ⟨hdestroy, ((hasleep hdestroy).associated _).mp hloc.symm⟩
  · rintro ⟨hdestroy, hlast⟩
    have h := hasleep hdestroy
    have hexit : cv.policy.threadCanExit tid = true :=
      ConditionVariableDefaultPolicy.threadCanExit_iff.mpr
        (.inl (h.released ⟨_, hbroadcast, rfl⟩))
    have hsome : (cv.wait tid mu.location).isSome = true :=
      ConditionVariable.wait_isSome_iff.mpr hexit
    obtain ⟨cv', hwait⟩ := Option.isSome_iff_exists.mp hsome
    exact enabled_iff_step.mpr ⟨_, .conditionVariableWait ha hc hm h.usable
      (by simp [ConditionVariable.waiterCanExit, hexit])
      ((h.associated _).mpr hlast).symm hfree hwait⟩

end

/-- Two running threads, a free mutex and an initialized condition variable. -/
private def broadcastWorld : State :=
  .ofRunnersAndObjects [⟨.running⟩, ⟨.running⟩]
    [.mutex ⟨.unlocked, 64, ridInvalid⟩, .conditionVariable { currentState := .initialized }]

/-- Thread 0 locks the mutex, falls asleep, and thread 1 executes a broadcast. -/
private def broadcastHistory : List Transition :=
  [⟨0, .mutexLock 2⟩] ++ [⟨0, .conditionVariableEnqueueThread 3 2⟩] ++
    [⟨1, .conditionVariableBroadcast 3⟩]

/-- A broadcast is revoked when the condition variable is destroyed after it. -/
theorem wait_not_enabled_after_broadcast :
    ¬ ∀ (s₀ s : State) (c m : ObjId) (tid p : RunnerId) (before after : List Transition)
      (mu : Mutex),
      run s₀ (before ++ [⟨tid, .conditionVariableEnqueueThread c m⟩] ++ after) = some s →
      ⟨p, .conditionVariableBroadcast c⟩ ∈ after → (∀ u ∈ after, u.executor ≠ tid) →
      (∀ u ∈ after, u.op ≠ .conditionVariableInit c) →
      s.objectState m = some (.mutex mu) → mu.isUnlocked = true →
      Enabled ⟨tid, .conditionVariableWait c m⟩ s := by
  intro h
  have henabled := h broadcastWorld _ 3 2 0 1 [⟨0, .mutexLock 2⟩]
    [⟨1, .conditionVariableBroadcast 3⟩, ⟨1, .conditionVariableDestroy 3⟩]
    ⟨.unlocked, 64, ridInvalid⟩ rfl (by decide) (by decide) (by decide) rfl rfl
  exact absurd henabled (by decide)

/-- Right after the broadcast the wait of the released thread is enabled. -/
theorem wait_enabled_after_broadcast :
    ∃ s, run broadcastWorld broadcastHistory = some s ∧
      Enabled ⟨0, .conditionVariableWait 3 2⟩ s := by
  obtain ⟨s, hrun⟩ : ∃ s, run broadcastWorld broadcastHistory = some s := ⟨_, rfl⟩
  have hm : s.objectState 2 = some (.mutex ⟨.unlocked, 64, ridInvalid⟩) := by
    obtain rfl := Option.some.inj hrun
    rfl
  refine ⟨s, hrun, (wait_enabled_iff_of_broadcast hrun (List.mem_singleton.mpr rfl) (by decide)
    (by decide) hm rfl).mpr ⟨by decide, ?_⟩⟩
  exact .inl ⟨[⟨0, .mutexLock 2⟩], ⟨0, .conditionVariableEnqueueThread 3 2⟩,
    [⟨1, .conditionVariableBroadcast 3⟩], rfl, ⟨2, rfl, _, hm, rfl⟩, by simp⟩

end McMini
