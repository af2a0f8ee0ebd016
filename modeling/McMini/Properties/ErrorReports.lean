import McMini.Dpor.Step
import McMini.Foundation.FallibleLists

/-!
# Reports about the target's errors

The search executes runners in three places: in a round of its exploration loop, in the first
step after it has gone back, and when `return_to_depth` replays a trace. Executing a runner
can fail in two ways. Either the execution throws one of the three exceptions about the
target, or the operation the runner reports next aborts the program or exits it abnormally.

A failure is *reported* when the search invokes the callback for it, executes nobody else and
returns. The three places have their own `catch` clauses, and only the first checks the next
operation, so a failure which is reported in one of them escapes or goes unnoticed in another:
`reported_iff_handled` says which are reported.
-/

namespace McMini

open Search Foundation

/-! ### Exceptions of the checker itself -/

/-- The exception is none of the three which tell about the target. -/
def Internal (e : Failure) : Prop := callbackFor e = none

section Internal

variable {config : Configuration} {s : State} {i : ObjId} {p : RunnerId} {c : Coordinator}
  {stack : List StackItem}

theorem internal_getStateOfObject : ThrowsOnly Internal (s.getStateOfObject i) := by
  unfold State.getStateOfObject
  cases s.objectState i with
  | none => exact throwsOnly_error rfl
  | some o => exact throwsOnly_ok o

theorem internal_mutexAt : ThrowsOnly Internal (s.mutexAt i) := by
  have h := internal_getStateOfObject (s := s) (i := i)
  unfold State.mutexAt
  rcases hs : s.getStateOfObject i with e | (_ | _ | _ | _)
  · exact throwsOnly_error (h e hs)
  · exact throwsOnly_ok _
  all_goals exact throwsOnly_error rfl

theorem internal_semaphoreAt : ThrowsOnly Internal (s.semaphoreAt i) := by
  have h := internal_getStateOfObject (s := s) (i := i)
  unfold State.semaphoreAt
  rcases hs : s.getStateOfObject i with e | (_ | _ | _ | _)
  · exact throwsOnly_error (h e hs)
  · exact throwsOnly_error rfl
  · exact throwsOnly_ok _
  all_goals exact throwsOnly_error rfl

theorem internal_conditionVariableAt : ThrowsOnly Internal (s.conditionVariableAt i) := by
  have h := internal_getStateOfObject (s := s) (i := i)
  unfold State.conditionVariableAt
  rcases hs : s.getStateOfObject i with e | (_ | _ | _ | _)
  · exact throwsOnly_error (h e hs)
  · exact throwsOnly_error rfl
  · exact throwsOnly_error rfl
  · exact throwsOnly_ok _
  · exact throwsOnly_error rfl

theorem internal_getStateOfRunner : ThrowsOnly Internal (s.getStateOfRunner p) := by
  unfold State.getStateOfRunner
  cases s.objidForRunner p with
  | none => exact throwsOnly_error rfl
  | some i =>
    have h := internal_getStateOfObject (s := s) (i := i)
    rcases hs : s.getStateOfObject i with e | (_ | _ | _ | _)
    · simpa [hs] using throwsOnly_error (α := Thread) (h e hs)
    all_goals simp only [hs]
    · exact throwsOnly_error rfl
    · exact throwsOnly_error rfl
    · exact throwsOnly_error rfl
    · exact throwsOnly_ok _

theorem internal_replaceStateForObj {d : DiffState} {o : VisibleObjectState} :
    ThrowsOnly Internal (d.replaceStateForObj i o) := by
  unfold DiffState.replaceStateForObj
  cases d.toState.getStateOfObject i with
  | error e => exact throwsOnly_error rfl
  | ok old => exact throwsOnly_ite (throwsOnly_ok _) (throwsOnly_error rfl)

theorem internal_replaceStateForRunner {d : DiffState} {t : Thread} :
    ThrowsOnly Internal (d.replaceStateForRunner p t) := by
  unfold DiffState.replaceStateForRunner
  cases d.toState.objidForRunner p with
  | none => exact throwsOnly_error rfl
  | some i => exact internal_replaceStateForObj

theorem internal_replace {d : DiffState} {o : VisibleObjectState} {status : Status} :
    ThrowsOnly Internal (d.replaceStateForObj i o >>= fun d => .ok (status, d)) :=
  internal_replaceStateForObj.bind fun _ => throwsOnly_ok _

/-- A transition which cannot be applied is an error of the checker. -/
theorem internal_modify (t : Transition) (d : DiffState) : ThrowsOnly Internal (t.modify d) := by
  obtain ⟨executor, op⟩ := t
  cases op with
  | mutexInit m => exact internal_mutexAt.bind fun _ => internal_replace
  | mutexLock m =>
    exact internal_mutexAt.bind fun _ => throwsOnly_ite (throwsOnly_ok _) internal_replace
  | mutexUnlock m =>
    exact internal_mutexAt.bind fun _ => throwsOnly_ite (throwsOnly_ok _) internal_replace
  | conditionVariableInit cv => exact internal_replace
  | conditionVariableEnqueueThread cv m =>
    exact internal_conditionVariableAt.bind fun _ => internal_mutexAt.bind fun _ =>
      throwsOnly_ite (throwsOnly_ok _) (throwsOnly_ite (throwsOnly_ok _)
        (internal_replaceStateForObj.bind fun _ => internal_replace))
  | conditionVariableWait cv m =>
    refine internal_conditionVariableAt.bind fun cv' => internal_mutexAt.bind fun m' =>
      throwsOnly_ite (throwsOnly_ok _) (throwsOnly_ite (throwsOnly_ok _)
        (throwsOnly_ite (throwsOnly_ok _) (internal_replaceStateForObj.bind fun _ => ?_)))
    cases cv'.wait executor m'.location with
    | none => exact throwsOnly_error rfl
    | some newCv => exact internal_replace
  | conditionVariableSignal cv =>
    exact internal_conditionVariableAt.bind fun _ => throwsOnly_ite (throwsOnly_ok _)
      (throwsOnly_ite (throwsOnly_ok _) (throwsOnly_ite (throwsOnly_ok _) internal_replace))
  | conditionVariableBroadcast cv =>
    exact internal_conditionVariableAt.bind fun _ => throwsOnly_ite (throwsOnly_ok _)
      (throwsOnly_ite (throwsOnly_ok _) (throwsOnly_ite (throwsOnly_ok _) internal_replace))
  | conditionVariableDestroy cv =>
    exact internal_conditionVariableAt.bind fun _ => throwsOnly_ite (throwsOnly_ok _)
      (throwsOnly_ite (throwsOnly_ok _) (throwsOnly_ite (throwsOnly_ok _) internal_replace))
  | semInit sem count => exact internal_replace
  | semPost sem => exact internal_semaphoreAt.bind fun _ => internal_replace
  | semWait sem =>
    exact internal_semaphoreAt.bind fun _ => throwsOnly_ite (throwsOnly_ok _) internal_replace
  | threadCreate target => exact internal_replaceStateForRunner.bind fun _ => throwsOnly_ok _
  | threadStart => exact internal_getStateOfRunner.bind fun _ => throwsOnly_ok _
  | threadJoin target => exact internal_getStateOfRunner.bind fun _ => throwsOnly_ok _
  | threadExit =>
    exact internal_getStateOfRunner.bind fun _ => throwsOnly_ite (throwsOnly_ok _)
      (internal_replaceStateForRunner.bind fun _ => throwsOnly_ok _)
  | processExit exitCode => exact internal_replaceStateForRunner.bind fun _ => throwsOnly_ok _
  | processAbort => exact throwsOnly_ok _

theorem internal_applyTo (t : Transition) (s : State) : ThrowsOnly Internal (t.applyTo s) :=
  internal_getStateOfRunner.bind fun _ => throwsOnly_ite (throwsOnly_ok _)
    ((internal_modify t _).bind fun _ => throwsOnly_ite (throwsOnly_ok _) (throwsOnly_ok _))

theorem internal_isEnabledIn (t : Transition) (s : State) :
    ThrowsOnly Internal (t.isEnabledIn s) :=
  (internal_applyTo t s).bind fun _ => throwsOnly_ok _

theorem internal_getEnabledRunners (program : Program) :
    ThrowsOnly Internal program.getEnabledRunners := by
  refine throwsOnly_filterM fun r => ?_
  cases program.nextSteps.lookup r with
  | none => exact throwsOnly_ok _
  | some t => exact internal_isEnabledIn t _

theorem internal_deref (out : TransitionPointer) : ThrowsOnly Internal out.deref := by
  cases out with
  | nullptr => exact throwsOnly_error rfl
  | valid t => exact throwsOnly_ok t
  | dangling => exact throwsOnly_error rfl

theorem internal_stackAt (n : ℕ) : ThrowsOnly Internal (stackAt stack n) := by
  unfold stackAt
  cases stack[n]? with
  | none => exact throwsOnly_error rfl
  | some item => exact throwsOnly_ok item

theorem internal_stackBack : ThrowsOnly Internal (stackBack stack) := by
  unfold stackBack
  cases stack.getLast? with
  | none => exact throwsOnly_error rfl
  | some item => exact throwsOnly_ok item

theorem internal_lastTransition (c : Coordinator) : ThrowsOnly Internal c.lastTransition := by
  unfold Coordinator.lastTransition
  cases c.getTrace.getLast? with
  | none => exact throwsOnly_error rfl
  | some t => exact throwsOnly_ok t

theorem internal_pendingTransitionFor (c : Coordinator) (p : RunnerId) :
    ThrowsOnly Internal (c.pendingTransitionFor p) := by
  unfold Coordinator.pendingTransitionFor
  cases c.currentProgramModel.nextSteps.lookup p with
  | none => exact throwsOnly_error rfl
  | some t => exact throwsOnly_ok t

theorem internal_clockVectorOf (item : StackItem) (p : RunnerId) :
    ThrowsOnly Internal (item.clockVectorOf p) := by
  unfold StackItem.clockVectorOf
  cases item.perRunnerClocks[p]? with
  | none => exact throwsOnly_error rfl
  | some runner => exact throwsOnly_ok _

theorem internal_withClockVector (item : StackItem) (p : RunnerId) (cv : ClockVector) :
    ThrowsOnly Internal (item.withClockVector p cv) := by
  unfold StackItem.withClockVector
  split_ifs
  · exact throwsOnly_ok _
  · exact throwsOnly_error rfl

theorem internal_growStackAfterRunning (c : Coordinator) (stack : List StackItem) :
    ThrowsOnly Internal (growStackAfterRunning config c stack) := by
  have hjoin : ∀ t result (s_i : StackItem),
      ThrowsOnly Internal (joinClockVector config t result s_i) := by
    intro t result s_i
    unfold joinClockVector
    cases s_i.outTransition with
    | nullptr => exact throwsOnly_ok _
    | valid out =>
      exact (internal_deref _).bind fun _ => throwsOnly_ite (throwsOnly_ok _) (throwsOnly_ok _)
    | dangling =>
      exact (internal_deref _).bind fun _ => throwsOnly_ite (throwsOnly_ok _) (throwsOnly_ok _)
  refine throwsOnly_ite (throwsOnly_error rfl) ?_
  refine (internal_lastTransition c).bind fun t_n => ?_
  refine (throwsOnly_foldlM (hjoin t_n) _).bind fun cv => ?_
  refine internal_stackBack.bind fun s_n => ?_
  refine (internal_withClockVector _ _ _).bind fun clocks => ?_
  refine (internal_getEnabledRunners _).bind fun enabled => ?_
  refine (throwsOnly_filterM fun rid => ?_).bind fun asleep => throwsOnly_ok _
  exact (internal_pendingTransitionFor c rid).bind fun _ => throwsOnly_ok _

theorem internal_happensBeforeThread (stack : List StackItem) (n : ℕ) (p : RunnerId) :
    ThrowsOnly Internal (happensBeforeThread stack n p) := by
  have ht : ThrowsOnly Internal (getTransition stack n) :=
    (internal_stackAt n).bind fun _ => internal_deref _
  exact ht.bind fun _ => internal_stackBack.bind fun _ =>
    (internal_clockVectorOf _ _).bind fun _ => throwsOnly_ok _

theorem internal_atIndex (stack : List StackItem) (S_i next_sp : Transition) (n : ℕ)
    (p : RunnerId) : ThrowsOnly Internal
      (dynamicallyUpdateBacktrackSetsAtIndex config stack S_i next_sp n p) := by
  have ht : ∀ j, ThrowsOnly Internal (getTransition stack j) := fun j =>
    (internal_stackAt j).bind fun _ => internal_deref _
  have hrace : ThrowsOnly Internal (hasReversibleRace config stack S_i next_sp n p) :=
    throwsOnly_ite ((internal_happensBeforeThread _ _ _).bind fun _ => throwsOnly_ok _)
      (throwsOnly_ok _)
  have hafter : ∀ q, ThrowsOnly Internal (threadsRaceAfter stack n q p) := by
    intro q
    refine throwsOnly_anyM fun j => (ht j).bind fun _ => ?_
    exact throwsOnly_ite (internal_happensBeforeThread _ _ _) (throwsOnly_ok _)
  refine (internal_stackAt n).bind fun pre_si => hrace.bind fun race => ?_
  refine throwsOnly_ite (ThrowsOnly.bind ?_ fun _ => throwsOnly_ok _) (throwsOnly_ok _)
  refine (throwsOnly_filterM fun q => ?_).bind fun _ => throwsOnly_ok _
  exact throwsOnly_ite (throwsOnly_ok _) (hafter q)

theorem internal_dynamicallyUpdateBacktrackSets (c : Coordinator) (stack : List StackItem) :
    ThrowsOnly Internal (dynamicallyUpdateBacktrackSets config c stack) := by
  have hothers : ∀ S_n top thread_ids stack,
      ThrowsOnly Internal (updateForOthers config c S_n top thread_ids stack) := by
    intro S_n top thread_ids
    induction thread_ids with
    | nil => exact fun stack => throwsOnly_ok stack
    | cons rid thread_ids ih =>
      exact fun stack => (internal_pendingTransitionFor c rid).bind fun _ =>
        (internal_atIndex _ _ _ _ _).bind fun r => ih r.2
  have hlatest : ∀ next_sp p n stack,
      ThrowsOnly Internal (updateForLatest config c next_sp p n stack) := by
    intro next_sp p n
    induction n with
    | zero => exact fun stack => throwsOnly_ok stack
    | succ n ih =>
      intro stack
      rw [updateForLatest]
      cases c.getTrace[n]? with
      | none => exact throwsOnly_error rfl
      | some S_i =>
        exact (internal_atIndex _ _ _ _ _).bind fun r => throwsOnly_ite (throwsOnly_ok _) (ih r.2)
  exact (internal_lastTransition c).bind fun _ => (hothers _ _ _ _).bind fun _ =>
    (internal_pendingTransitionFor c _).bind fun _ => hlatest _ _ _ _

end Internal

/-! ### Executions and their failures -/

/-- The places from which `verify_using` executes a runner. -/
inductive Site
  | exploration | backtracked | replay
  deriving DecidableEq, Repr

/-- How executing a runner fails: an exception is thrown, or its next operation ends the
program. -/
inductive Cause
  | thrown | pending
  deriving DecidableEq, Repr

/-- In its step from `s`, `verify_using` executes the runner in the state `now`. -/
inductive Executes (source : ProcessSource) (config : Configuration)
    (callbacks : Finset Callback) (s : Search) : Site → RunnerId → Search → Prop
  | exploration {init : List StackItem} {back : StackItem} (hphase : s.phase = .exploration)
      (hstack : s.stack = init ++ [back]) (henabled : back.enabledRunners ≠ ∅)
      (hlimit : s.stack.length < config.maximumTotalExecutionDepth) :
      Executes source config callbacks s .exploration back.getFirstEnabledRunner s
  | backtracked {init : List StackItem} {back back' : StackItem} {rid : RunnerId}
      (hphase : s.phase = .backtrack) (hstack : s.stack = init ++ [back])
      (hpop : back.backtrackSetPopFirst = .ok (rid, back')) :
      Executes source config callbacks s .backtracked rid { s with stack := init ++ [back'] }
  | replay {init init' : List StackItem} {back back' : StackItem} {s₁ : Search}
      {pre post : List RunnerId} {rid : RunnerId} (hphase : s.phase = .exploration)
      (hstack : s.stack = init' ++ [back']) (hnone : back'.enabledRunners = ∅)
      (hcomplete : s.completeTrace callbacks = .ok s₁)
      (hpop : popExplored s₁.stack = init ++ [back])
      (hrestore : (s₁.coordinator.currentProgramModel.restoreModelAtDepth init.length).2 = .ok ())
      (hlength : (s₁.coordinator.restored init.length).getTrace.length = init.length)
      (htrace : (s₁.coordinator.restored init.length).getTrace.map (·.executor) =
        pre ++ rid :: post)
      (hanswers : ∀ pre' q post', pre = pre' ++ q :: post' →
        ∃ contents, source pre' q = .ok contents) :
      Executes source config callbacks s .replay rid { s₁ with
        stack := init ++ [back]
        coordinator := { s₁.coordinator.restored init.length with executed := pre } }

/-- The failure which the next operation of a runner stands for. -/
def MailboxContents.failure (rid : RunnerId) : MailboxContents → Option Failure
  | .processAbort => some (.terminationError sigabrt rid "The program aborted")
  | .processExit exitCode =>
    if exitCode > 0 then
      some (.nonzeroExitCodeError exitCode rid "The program exited abnormally")
    else none
  | _ => none

/-- Executing the runner fails with `e`. The report of a replayed step does not reach the
model. -/
def Fails (source : ProcessSource) (rid : RunnerId) (c : Coordinator) (e : Failure) :
    Site → Cause → Prop
  | .replay, .thrown => source c.executed rid = .error e
  | .replay, .pending =>
    ∃ contents, source c.executed rid = .ok contents ∧ contents.failure rid = some e
  | _, .thrown => ∃ c', (executeRunner source rid).run c = (.error e, c')
  | _, .pending =>
    ∃ c', (executeRunner source rid).run c = (.ok (), c') ∧ checkNextOperation rid c' = .error e

/-- The search invokes the callback for the failure, executes nobody else and returns. -/
def Reported (callbacks : Finset Callback) (now : Search) (rid : RunnerId) (e : Failure)
    (callback : Callback) (r : Progress) : Prop :=
  ∃ s', r = .returns s' ∧ s'.coordinator.executed = now.coordinator.executed ++ [rid] ∧
    s'.invocations = now.invocations ++
      if callback ∈ callbacks then [⟨callback, s'.coordinator, s'.stats, some e⟩] else []

/-- The failures which are provided for. After an execution in the exploration loop the stack
has to be updated before the next operation is checked. -/
def Handled (source : ProcessSource) (config : Configuration) (now : Search) (rid : RunnerId)
    (callback : Callback) : Site → Cause → Prop
  | .exploration, .thrown => True
  | .exploration, .pending => ∃ stack c, (continueDporByExpandingTraceWith source config rid
      now.stack).run now.coordinator = (.ok stack, c)
  | .backtracked, .thrown => callback = .undefinedBehavior
  | .backtracked, .pending => False
  | .replay, .thrown => callback ≠ .undefinedBehavior
  | .replay, .pending => False

section Step

variable {source : ProcessSource} {config : Configuration} {callbacks : Finset Callback}
  {s now : Search} {c c' : Coordinator} {rid : RunnerId} {e : Failure} {callback : Callback}
  {site : Site} {cause : Cause} {stack : List StackItem} {clauses : List Callback}

/-! ### Parts of a step -/

theorem invoke_coordinator (s : Search) (exception : Option Failure) :
    (s.invoke callbacks callback exception).coordinator = s.coordinator := by
  unfold invoke
  split_ifs
  · rfl
  · rfl

theorem catching_of_mem (hcallback : callbackFor e = some callback) (hmem : callback ∈ clauses) :
    s.catching callbacks clauses e = .returns (s.invoke callbacks callback (some e)) := by
  unfold catching
  rw [hcallback]
  exact if_pos hmem

theorem catching_of_notMem (hcallback : callbackFor e = some callback)
    (hmem : callback ∉ clauses) : s.catching callbacks clauses e = .throws e s := by
  unfold catching
  rw [hcallback]
  exact if_neg hmem

theorem catching_of_internal (h : Internal e) :
    s.catching callbacks clauses e = .throws e s := by
  unfold catching
  rw [h]

theorem reported_invoke (hexecuted : s.coordinator.executed = now.coordinator.executed ++ [rid])
    (hinvocations : s.invocations = now.invocations) :
    Reported callbacks now rid e callback (.returns (s.invoke callbacks callback (some e))) := by
  refine ⟨_, rfl, by rw [invoke_coordinator, hexecuted], ?_⟩
  unfold invoke
  split_ifs
  · rw [← hinvocations]
  · rw [hinvocations, List.append_nil]

theorem not_reported_continues {s' : Search} :
    ¬ Reported callbacks now rid e callback (.continues s') := by
  rintro ⟨_, h, -⟩
  cases h

theorem not_reported_throws {e' : Failure} {s' : Search} :
    ¬ Reported callbacks now rid e callback (.throws e' s') := by
  rintro ⟨_, h, -⟩
  cases h

/-- Whatever comes of it, executing a runner makes the process execute it. -/
theorem executeRunner_executed (source : ProcessSource) (rid : RunnerId) (c : Coordinator) :
    ((executeRunner source rid).run c).2.executed = c.executed ++ [rid] := by
  rw [executeRunner_run]
  cases source c.executed rid with
  | error e => rfl
  | ok contents =>
    have hobserves := observing_callback rid contents (c.afterProcess rid)
    dsimp only
    rcases hcallback : (callback rid contents).run (c.afterProcess rid) with ⟨_ | t, c₁⟩
    · rw [hcallback] at hobserves
      exact hobserves.executed
    · rw [hcallback] at hobserves
      dsimp only
      cases c₁.currentProgramModel.modelExecutionOf rid t with
      | error e => exact hobserves.executed
      | ok program => exact hobserves.executed

theorem continueDpor_run_of_error (h : (executeRunner source rid).run c = (.error e, c')) :
    (continueDporByExpandingTraceWith source config rid stack).run c = (.error e, c') := by
  unfold continueDporByExpandingTraceWith
  rw [run_bind, h]

theorem continueDpor_run_of_ok (h : (executeRunner source rid).run c = (.ok (), c')) :
    (continueDporByExpandingTraceWith source config rid stack).run c =
      (growStackAfterRunning config c' stack >>= dynamicallyUpdateBacktrackSets config c', c') := by
  unfold continueDporByExpandingTraceWith
  rw [run_bind, h]
  simp only [run_bind, run_get]
  cases growStackAfterRunning config c' stack with
  | error e => rfl
  | ok grown => rfl

theorem internal_bookkeeping (c : Coordinator) (stack : List StackItem) :
    ThrowsOnly Internal
      (growStackAfterRunning config c stack >>= dynamicallyUpdateBacktrackSets config c) :=
  (internal_growStackAfterRunning c stack).bind fun _ =>
    internal_dynamicallyUpdateBacktrackSets c _

/-! ### Replays -/

theorem replay_append (ps qs : List RunnerId) (c : Coordinator) :
    (replay source (ps ++ qs)).run c = match (replay source ps).run c with
      | (.ok _, c') => (replay source qs).run c'
      | (.error e, c') => (.error e, c') := by
  induction ps generalizing c with
  | nil => rfl
  | cons p ps ih =>
    rw [List.cons_append, replay, replay, run_bind, run_bind]
    rcases (processExecute source p).run c with ⟨_ | contents, c₁⟩
    · rfl
    · exact ih c₁

/-- A replay stops at the first runner which does not answer. -/
theorem replay_run_of_error {pre post : List RunnerId}
    (hanswers : ∀ pre' q post', pre = pre' ++ q :: post' →
      ∃ contents, source (c.executed ++ pre') q = .ok contents)
    (h : source (c.executed ++ pre) rid = .error e) :
    (replay source (pre ++ rid :: post)).run c =
      (.error e, { c with executed := c.executed ++ pre ++ [rid] }) := by
  rw [replay_append, replay_run pre c hanswers]
  dsimp only
  rw [replay, run_bind, processExecute_run]
  simp only [h]
  rfl

theorem replay_eq_error {ps : List RunnerId} (h : (replay source ps).run c = (.error e, c')) :
    ∃ pre q post, ps = pre ++ q :: post ∧ c'.executed = c.executed ++ pre ++ [q] ∧
      source (c.executed ++ pre) q = .error e := by
  induction ps generalizing c with
  | nil => cases (Prod.mk.inj h).1
  | cons p ps ih =>
    rw [replay, run_bind, processExecute_run] at h
    cases hp : source c.executed p with
    | error e' =>
      rw [hp] at h
      obtain ⟨he, rfl⟩ := Prod.mk.inj h
      obtain rfl := Except.error.inj he
      exact ⟨[], p, ps, rfl, by simp [Coordinator.afterProcess], by simpa using hp⟩
    | ok contents =>
      rw [hp] at h
      obtain ⟨pre, q, post, rfl, hexecuted, hq⟩ := ih h
      exact ⟨p :: pre, q, post, rfl, by simpa [Coordinator.afterProcess] using hexecuted,
        by simpa [Coordinator.afterProcess] using hq⟩

theorem hasEnabledRunners_iff {item : StackItem} :
    item.hasEnabledRunners = true ↔ item.enabledRunners ≠ ∅ := decide_eq_true_iff

theorem step_explore {init : List StackItem} {back : StackItem} (hphase : s.phase = .exploration)
    (hstack : s.stack = init ++ [back]) (henabled : back.enabledRunners ≠ ∅) :
    s.step source config callbacks = s.explore source config callbacks back := by
  unfold Search.step
  rw [hstack, List.getLast?_concat, hphase]
  exact if_pos (hasEnabledRunners_iff.mpr henabled)

theorem step_returnToBacktrackPoint {init : List StackItem} {back : StackItem}
    (hphase : s.phase = .exploration) (hstack : s.stack = init ++ [back])
    (hnone : back.enabledRunners = ∅) :
    s.step source config callbacks = s.returnToBacktrackPoint source callbacks := by
  unfold Search.step
  rw [hstack, List.getLast?_concat, hphase]
  exact if_neg (mt hasEnabledRunners_iff.mp (not_not.mpr hnone))

theorem step_followBacktrack {init : List StackItem} {back : StackItem}
    (hphase : s.phase = .backtrack) (hstack : s.stack = init ++ [back]) :
    s.step source config callbacks = s.followBacktrack source config callbacks back := by
  unfold Search.step
  rw [hstack, List.getLast?_concat, hphase]

/-- The round of the exploration loop, once the runner has been executed. -/
theorem reported_explore {back : StackItem} (hlimit : s.stack.length < config.maximumTotalExecutionDepth)
    (hfail : Fails source back.getFirstEnabledRunner s.coordinator e .exploration cause)
    (hcallback : callbackFor e = some callback) :
    Handled source config s back.getFirstEnabledRunner callback .exploration cause ↔
      Reported callbacks s back.getFirstEnabledRunner e callback
        (s.explore source config callbacks back) := by
  have hmem : callback ∈ [Callback.undefinedBehavior, .abnormalTermination, .nonzeroExitCode] := by
    cases e <;> simp [callbackFor] at hcallback <;> subst hcallback <;> decide
  have hexecuted := executeRunner_executed source back.getFirstEnabledRunner s.coordinator
  unfold Search.explore
  rw [if_neg (not_le.mpr hlimit)]
  dsimp only
  cases cause with
  | thrown =>
    obtain ⟨c', hrun⟩ := hfail
    rw [hrun] at hexecuted
    rw [continueDpor_run_of_error hrun]
    dsimp only
    rw [catching_of_mem hcallback hmem]
    exact iff_of_true trivial (reported_invoke hexecuted rfl)
  | pending =>
    obtain ⟨c', hrun, hcheck⟩ := hfail
    rw [hrun] at hexecuted
    unfold Handled
    rw [continueDpor_run_of_ok hrun]
    cases hbookkeeping : growStackAfterRunning config c' s.stack >>=
        dynamicallyUpdateBacktrackSets config c' with
    | error e' =>
      dsimp only
      rw [catching_of_internal (internal_bookkeeping c' s.stack e' hbookkeeping)]
      refine iff_of_false ?_ not_reported_throws
      rintro ⟨stack, c'', h⟩
      cases (Prod.mk.inj h).1
    | ok stack =>
      dsimp only
      rw [hcheck]
      dsimp only
      rw [catching_of_mem hcallback hmem]
      exact iff_of_true ⟨stack, c', rfl⟩ (reported_invoke hexecuted rfl)

/-- The next operation is not checked in the first step after going back. -/
theorem not_reported_followBacktrack {init : List StackItem} {back back' : StackItem}
    (hstack : s.stack = init ++ [back]) (hpop : back.backtrackSetPopFirst = .ok (rid, back'))
    (hrun : (executeRunner source rid).run s.coordinator = (.ok (), c')) :
    ¬ Reported callbacks now rid e callback
      (s.followBacktrack source config callbacks back) := by
  unfold Search.followBacktrack
  rw [hpop, hstack, List.dropLast_concat]
  dsimp only
  rw [continueDpor_run_of_ok hrun]
  cases hbookkeeping : growStackAfterRunning config c' (init ++ [back']) >>=
      dynamicallyUpdateBacktrackSets config c' with
  | error e' =>
    dsimp only
    rw [catching_of_internal (internal_bookkeeping c' _ e' hbookkeeping)]
    exact not_reported_throws
  | ok stack => exact not_reported_continues

/-- The first step after going back. -/
theorem reported_followBacktrack {init : List StackItem} {back back' : StackItem}
    (hstack : s.stack = init ++ [back]) (hpop : back.backtrackSetPopFirst = .ok (rid, back'))
    (hfail : Fails source rid s.coordinator e .backtracked cause)
    (hcallback : callbackFor e = some callback) :
    Handled source config { s with stack := init ++ [back'] } rid callback .backtracked cause ↔
      Reported callbacks { s with stack := init ++ [back'] } rid e callback
        (s.followBacktrack source config callbacks back) := by
  cases cause with
  | thrown =>
    have hexecuted := executeRunner_executed source rid s.coordinator
    unfold Search.followBacktrack
    rw [hpop, hstack, List.dropLast_concat]
    dsimp only
    obtain ⟨c', hrun⟩ := hfail
    rw [hrun] at hexecuted
    rw [continueDpor_run_of_error hrun]
    by_cases hub : callback = .undefinedBehavior
    · dsimp only
      rw [catching_of_mem hcallback (List.mem_singleton.mpr hub)]
      exact iff_of_true hub (reported_invoke hexecuted rfl)
    · dsimp only
      rw [catching_of_notMem hcallback (mt List.mem_singleton.mp hub)]
      exact iff_of_false hub not_reported_throws
  | pending =>
    obtain ⟨c', hrun, -⟩ := hfail
    exact iff_of_false id (not_reported_followBacktrack hstack hpop hrun)

/-- Going back replays the trace which is left. -/
theorem returnToDepth_of_restored {depth : ℕ} {ps : List RunnerId}
    (hrestore : (c.currentProgramModel.restoreModelAtDepth depth).2 = .ok ())
    (hlength : (c.restored depth).getTrace.length = depth)
    (htrace : (c.restored depth).getTrace.map (·.executor) = ps) :
    (returnToDepth source depth).run c = (replay source ps).run (c.restored depth) := by
  rw [returnToDepth_run, hrestore]
  dsimp only
  rw [if_neg (not_not.mpr hlength), htrace]

theorem returnToBacktrackPoint_of_error {init : List StackItem} {back : StackItem} {s₁ : Search}
    (hcomplete : s.completeTrace callbacks = .ok s₁) (hpop : popExplored s₁.stack = init ++ [back])
    (hreturn : (returnToDepth source init.length).run s₁.coordinator = (.error e, c')) :
    s.returnToBacktrackPoint source callbacks =
      catching callbacks { s₁ with coordinator := c', stack := init ++ [back] }
        [.abnormalTermination, .nonzeroExitCode] e := by
  have hdepth : (init ++ [back]).length - 1 = init.length := by simp
  unfold Search.returnToBacktrackPoint
  rw [hcomplete]
  dsimp only
  rw [hpop, List.getLast?_concat]
  dsimp only
  rw [hdepth, hreturn]

theorem returnToBacktrackPoint_of_ok {init : List StackItem} {back : StackItem} {s₁ : Search}
    (hcomplete : s.completeTrace callbacks = .ok s₁) (hpop : popExplored s₁.stack = init ++ [back])
    (hreturn : (returnToDepth source init.length).run s₁.coordinator = (.ok (), c')) :
    ∃ s', s.returnToBacktrackPoint source callbacks = .continues s' := by
  have hdepth : (init ++ [back]).length - 1 = init.length := by simp
  unfold Search.returnToBacktrackPoint
  rw [hcomplete]
  dsimp only
  rw [hpop, List.getLast?_concat]
  dsimp only
  rw [hdepth, hreturn]
  exact ⟨_, rfl⟩

/-- What a runner reports in a replay is not looked at. -/
theorem not_reported_replay {init : List StackItem} {back : StackItem} {s₁ : Search}
    {pre post : List RunnerId} {contents : MailboxContents}
    (hcomplete : s.completeTrace callbacks = .ok s₁)
    (hpop : popExplored s₁.stack = init ++ [back])
    (hrestore : (s₁.coordinator.currentProgramModel.restoreModelAtDepth init.length).2 = .ok ())
    (hlength : (s₁.coordinator.restored init.length).getTrace.length = init.length)
    (htrace : (s₁.coordinator.restored init.length).getTrace.map (·.executor) = pre ++ rid :: post)
    (hnow : now.coordinator.executed = pre) (hcontents : source pre rid = .ok contents) :
    ¬ Reported callbacks now rid e callback (s.returnToBacktrackPoint source callbacks) := by
  have hreturn : (returnToDepth source init.length).run s₁.coordinator =
      (replay source (pre ++ rid :: post)).run (s₁.coordinator.restored init.length) :=
    returnToDepth_of_restored hrestore hlength htrace
  rcases hreplay : (replay source (pre ++ rid :: post)).run
      (s₁.coordinator.restored init.length) with ⟨e' | _, c'⟩
  · -- the replay has stopped at another runner
    rw [returnToBacktrackPoint_of_error hcomplete hpop (hreturn.trans hreplay)]
    rintro ⟨s', hreturns, hexecuted, -⟩
    obtain ⟨pre', q, post', heq, hc', hq⟩ := replay_eq_error hreplay
    have hs' : s'.coordinator = c' := by
      unfold catching at hreturns
      split at hreturns
      · split_ifs at hreturns
        · rw [← Progress.returns.inj hreturns, invoke_coordinator]
      · cases hreturns
    rw [hs', hc', hnow] at hexecuted
    obtain ⟨rfl, hqrid⟩ := List.append_inj' hexecuted rfl
    obtain rfl := List.singleton_inj.mp hqrid
    have hthrown : source pre' q = .error e' := hq
    have hanswered : source pre' q = .ok contents := hcontents
    rw [hthrown] at hanswered
    cases hanswered
  · obtain ⟨s', hs'⟩ := returnToBacktrackPoint_of_ok hcomplete hpop (hreturn.trans hreplay)
    rw [hs']
    exact not_reported_continues

/-- The replay of a trace. -/
theorem reported_replay {init : List StackItem} {back : StackItem} {s₁ : Search}
    {pre post : List RunnerId} (hcomplete : s.completeTrace callbacks = .ok s₁)
    (hpop : popExplored s₁.stack = init ++ [back])
    (hrestore : (s₁.coordinator.currentProgramModel.restoreModelAtDepth init.length).2 = .ok ())
    (hlength : (s₁.coordinator.restored init.length).getTrace.length = init.length)
    (htrace : (s₁.coordinator.restored init.length).getTrace.map (·.executor) = pre ++ rid :: post)
    (hanswers : ∀ pre' q post', pre = pre' ++ q :: post' → ∃ contents, source pre' q = .ok contents)
    (hnow : now = { s₁ with
      stack := init ++ [back]
      coordinator := { s₁.coordinator.restored init.length with executed := pre } })
    (hfail : Fails source rid now.coordinator e .replay cause)
    (hcallback : callbackFor e = some callback) :
    Handled source config now rid callback .replay cause ↔
      Reported callbacks now rid e callback (s.returnToBacktrackPoint source callbacks) := by
  subst hnow
  cases cause with
  | thrown =>
    have hthrown : source pre rid = .error e := hfail
    have hreturn := (returnToDepth_of_restored hrestore hlength htrace).trans
      (replay_run_of_error (c := s₁.coordinator.restored init.length) hanswers hthrown)
    rw [returnToBacktrackPoint_of_error hcomplete hpop hreturn]
    by_cases hub : callback = .undefinedBehavior
    · have hnot : callback ∉ [Callback.abnormalTermination, .nonzeroExitCode] := by
        rw [hub]
        decide
      rw [catching_of_notMem hcallback hnot]
      exact iff_of_false (not_not.mpr hub) not_reported_throws
    · have hmem : callback ∈ [Callback.abnormalTermination, .nonzeroExitCode] := by
        cases e <;> simp [callbackFor] at hcallback <;> subst hcallback <;> simp at hub ⊢
      rw [catching_of_mem hcallback hmem]
      exact iff_of_true hub (reported_invoke rfl rfl)
  | pending =>
    obtain ⟨contents, hcontents, -⟩ := hfail
    exact iff_of_false id
      (not_reported_replay hcomplete hpop hrestore hlength htrace rfl hcontents)

/-- A failure is reported exactly when it is provided for. -/
theorem reported_step_iff (hexecutes : Executes source config callbacks s site rid now)
    (hfail : Fails source rid now.coordinator e site cause)
    (hcallback : callbackFor e = some callback) :
    Handled source config now rid callback site cause ↔
      Reported callbacks now rid e callback (s.step source config callbacks) := by
  cases hexecutes with
  | exploration hphase hstack henabled hlimit =>
    rw [step_explore hphase hstack henabled]
    exact reported_explore hlimit hfail hcallback
  | backtracked hphase hstack hpop =>
    rw [step_followBacktrack hphase hstack]
    exact reported_followBacktrack hstack hpop hfail hcallback
  | replay hphase hstack hnone hcomplete hpop hrestore hlength htrace hanswers =>
    rw [step_returnToBacktrackPoint hphase hstack hnone]
    exact reported_replay hcomplete hpop hrestore hlength htrace hanswers rfl hfail hcallback

/-- A step which continues the search has executed a runner, or has gone back, or has left the
coordinator alone. -/
theorem Search.Steps.executes_or {s' : Search} (h : Steps source config callbacks s s') :
    (∃ site rid now, Executes source config callbacks s site rid now ∧ site ≠ .replay ∧
      now.coordinator = s.coordinator ∧
      (executeRunner source rid).run s.coordinator = (.ok (), s'.coordinator)) ∨
    s'.coordinator = s.coordinator ∨
    ∃ n, (returnToDepth source n).run s.coordinator = (.ok (), s'.coordinator) := by
  cases h.move with
  | explore init back hphase hstack henabled hlimit hrun =>
    exact .inl ⟨.exploration, _, s, .exploration hphase.1 hstack henabled hlimit, by decide, rfl,
      (continueDporByExpandingTraceWith_eq_ok hrun).1⟩
  | finish _ _ _ hcoordinator => exact .inr (.inl hcoordinator)
  | goBack init back _ _ hrun _ => exact .inr (.inr ⟨_, hrun⟩)
  | follow init back rid hphase hstack hmem hfirst hrun =>
    have hpop : back.backtrackSetPopFirst = .ok (rid, back.markSearched rid) := by
      have hmin : back.backtrackSet.min = some rid := by
        refine le_antisymm (Finset.min_le hmem) (Finset.le_min fun q hq => ?_)
        exact WithTop.coe_le_coe.mpr (hfirst q hq)
      rw [StackItem.backtrackSetPopFirst, hmin]
    exact .inl ⟨.backtracked, rid, _, .backtracked hphase.1 hstack hpop, by decide, rfl,
      (continueDporByExpandingTraceWith_eq_ok hrun).1⟩

/-! ### Runs -/

/-- A run of `verify_using` from the state: the states it has been in, each with the process
as it answers in that step, and what the last step has led to. -/
inductive IsRun (config : Configuration) (callbacks : Finset Callback) :
    Search → List (Search × ProcessSource) → Progress → Prop
  | stop (s : Search) (source : ProcessSource) :
      IsRun config callbacks s [(s, source)] (s.step source config callbacks)
  | next {s s' : Search} {source : ProcessSource} {run : List (Search × ProcessSource)}
      {r : Progress} (hstep : s.step source config callbacks = .continues s')
      (hrun : IsRun config callbacks s' run r) :
      IsRun config callbacks s ((s, source) :: run) r

theorem IsRun.of_cons {s₀ : Search} {post : List (Search × ProcessSource)} {r : Progress}
    (h : IsRun config callbacks s₀ ((s, source) :: post) r) :
    (post = [] ∧ r = s.step source config callbacks) ∨
      ∃ s', s.step source config callbacks = .continues s' ∧ IsRun config callbacks s' post r := by
  cases h with
  | stop => exact .inl ⟨rfl, rfl⟩
  | next hstep hrun => exact .inr ⟨_, hstep, hrun⟩

/-- A later part of a run is a run. -/
theorem IsRun.drop {s₀ : Search} {pre post : List (Search × ProcessSource)} {r : Progress}
    (h : IsRun config callbacks s₀ (pre ++ (s, source) :: post) r) :
    IsRun config callbacks s ((s, source) :: post) r := by
  induction pre generalizing s₀ with
  | nil =>
    cases h with
    | stop => exact .stop s source
    | next hstep hrun => exact .next hstep hrun
  | cons entry pre ih =>
    rcases h.of_cons with ⟨hnil, -⟩ | ⟨s₁, -, hrun⟩
    · exact absurd hnil (by simp)
    · exact ih hrun

/-- **Which errors of the target are reported.** In every run a failure ends the search with
its report exactly when it is provided for in the place where the runner was executed. -/
theorem reported_iff_handled {s₀ : Search} {pre post : List (Search × ProcessSource)}
    {r : Progress} (hrun : IsRun config callbacks s₀ (pre ++ (s, source) :: post) r)
    (hexecutes : Executes source config callbacks s site rid now)
    (hfail : Fails source rid now.coordinator e site cause)
    (hcallback : callbackFor e = some callback) :
    Handled source config now rid callback site cause ↔
      post = [] ∧ Reported callbacks now rid e callback r := by
  rw [reported_step_iff hexecutes hfail hcallback]
  rcases hrun.drop.of_cons with ⟨hpost, rfl⟩ | ⟨s', hstep, hlater⟩
  · exact (and_iff_right hpost).symm
  · rw [hstep]
    refine iff_of_false not_reported_continues ?_
    rintro ⟨rfl, -⟩
    cases hlater

/-- Both threads wait for the unit, thread `0` after it has posted the other semaphore. Thread
`1` dies of a segmentation fault as soon as it gets the unit. -/
private def faulting : ProcessSource := fun executed p =>
  if p = 1 then .error (.terminationError 11 1 "Process terminated abnormally by signal 11")
  else if executed = [] then .ok (.semWait 100)
  else .ok .threadExit

private def searchOfFaulting : ℕ → Search
  | 0 => {
    coordinator := ⟨.ofState (.twoThreads (.semaphore (.ofCount 1)) (.semaphore (.ofCount 0)))
      ((Finmap.singleton 0 ⟨0, .semPost 3⟩).insert 1 ⟨1, .semWait 2⟩),
        (Finmap.singleton 100 2).insert 101 3, []⟩
    stack := [{ cv := .empty, enabledRunners := {0, 1} }] }
  | n + 1 =>
    match (searchOfFaulting n).step faulting {} {.abnormalTermination} with
    | .continues s => s
    | _ => searchOfFaulting n

private theorem steps_searchOfFaulting : ∀ n < 3, Steps faulting {} {.abnormalTermination}
    (searchOfFaulting n) (searchOfFaulting (n + 1))
  | 0, _ | 1, _ | 2, _ => by rfl

private theorem executes_searchOfFaulting : ∃ now,
    Executes faulting {} {.abnormalTermination} (searchOfFaulting 3) .backtracked 1 now := by
  have hlast : (searchOfFaulting 3).stack.getLast?.map
      (fun back => back.backtrackSetPopFirst.map (·.1)) = some (.ok 1) := by rfl
  obtain ⟨back, hback, hpop⟩ := Option.map_eq_some_iff.mp hlast
  obtain ⟨init, hstack⟩ := List.getLast?_eq_some_iff.mp hback
  cases hfirst : back.backtrackSetPopFirst with
  | error e =>
    rw [hfirst] at hpop
    cases hpop
  | ok first =>
    obtain ⟨rid, back'⟩ := first
    rw [hfirst] at hpop
    obtain rfl := Except.ok.inj hpop
    exact ⟨_, .backtracked rfl hstack hfirst⟩

/-- A crash in the first step after going back is not reported. -/
theorem not_reported_of_backtracked :
    ¬ ∀ source config callbacks c s₀ run s site rid now e cause callback r,
      Search.start c = .ok s₀ → IsRun config callbacks s₀ (run ++ [(s, source)]) r →
      Executes source config callbacks s site rid now →
      Fails source rid now.coordinator e site cause → callbackFor e = some callback →
      Reported callbacks now rid e callback r := by
  intro h
  obtain ⟨now, hexecutes⟩ := executes_searchOfFaulting
  have hfail : Fails faulting 1 now.coordinator
      (.terminationError 11 1 "Process terminated abnormally by signal 11") .backtracked
      .thrown := by
    refine ⟨now.coordinator.afterProcess 1, ?_⟩
    rw [executeRunner_run]
    rfl
  have hrun : IsRun {} {.abnormalTermination} (searchOfFaulting 0)
      ([(searchOfFaulting 0, faulting), (searchOfFaulting 1, faulting),
        (searchOfFaulting 2, faulting)] ++ [(searchOfFaulting 3, faulting)])
      ((searchOfFaulting 3).step faulting {} {.abnormalTermination}) :=
    .next (steps_searchOfFaulting 0 (by omega)) (.next (steps_searchOfFaulting 1 (by omega))
      (.next (steps_searchOfFaulting 2 (by omega)) (.stop _ _)))
  have hreported := h faulting {} {.abnormalTermination} (searchOfFaulting 0).coordinator _ _ _ _
    _ _ _ _ .abnormalTermination _ (by rfl) hrun hexecutes hfail rfl
  have hhandled : Callback.abnormalTermination = .undefinedBehavior :=
    (reported_step_iff hexecutes hfail rfl).mpr hreported
  cases hhandled

/-- Thread `0` is about to end after it has posted the semaphore. Thread `1` dies of a segmentation
fault as soon as it gets the unit of the other one. -/
private def dying : ProcessSource := fun _ p =>
  if p = 1 then .error (.terminationError 11 1 "Process terminated abnormally by signal 11")
  else .ok .threadExit

/-- The first step executes thread `0`, and the second one thread `1`. -/
private def searchOfDying : ℕ → Search
  | 0 => searchOfFaulting 0
  | n + 1 =>
    match (searchOfDying n).step dying {} {.abnormalTermination} with
    | .continues s => s
    | _ => searchOfDying n

/-- A crash of thread `1` in the course of the exploration is reported. -/
theorem reported_of_dying :
    Reported {.abnormalTermination} (searchOfDying 1) 1
      (.terminationError 11 1 "Process terminated abnormally by signal 11") .abnormalTermination
      ((searchOfDying 1).step dying {} {.abnormalTermination}) := by
  have hlast : (searchOfDying 1).stack.getLast?.map (fun back =>
      (decide (back.enabledRunners ≠ ∅), back.getFirstEnabledRunner)) = some (true, 1) := by rfl
  obtain ⟨back, hback, hfirst⟩ := Option.map_eq_some_iff.mp hlast
  obtain ⟨init, hstack⟩ := List.getLast?_eq_some_iff.mp hback
  obtain ⟨henabled, hrunner⟩ := Prod.mk.inj hfirst
  have hexecutes : Executes dying {} {.abnormalTermination} (searchOfDying 1) .exploration
      back.getFirstEnabledRunner (searchOfDying 1) :=
    .exploration rfl hstack (of_decide_eq_true henabled) (by decide)
  rw [hrunner] at hexecutes
  have hstep : Steps dying {} {.abnormalTermination} (searchOfDying 0) (searchOfDying 1) := by rfl
  have hrun : IsRun {} {.abnormalTermination} (searchOfDying 0)
      ([(searchOfDying 0, dying)] ++ [(searchOfDying 1, dying)])
      ((searchOfDying 1).step dying {} {.abnormalTermination}) := .next hstep (.stop _ _)
  have hfail : Fails dying 1 (searchOfDying 1).coordinator
      (.terminationError 11 1 "Process terminated abnormally by signal 11") .exploration
      .thrown := ⟨_, by rfl⟩
  exact ((reported_iff_handled hrun hexecutes hfail rfl).mp trivial).2

end Step

end McMini
