import McMini.Dpor.Step
import McMini.Foundation.FallibleLists

/-!
# Undefined behavior of the target

The outcome of `modify` has three values: a transition exists in a state, or it is disabled
there, or what it does there is undefined. `apply_to` folds the last two into one, so the
layers above it cannot tell a runner which is about to do something undefined from one which
is blocked: `follow` answers that its transition is disabled, `model_execution_of` refuses it
with the message for disabled transitions, the search leaves it alone, and a state in which
nobody else can move is a deadlock (`treatedAsBlocked_of_undefined`). The branch of
`model_execution_of` for undefined transitions is never taken.
-/

namespace McMini

open Search Foundation

section Program

variable {program : Program} {p : RunnerId} {t : Transition}

/-- The active runner `p` is about to execute `t`, which is undefined in the current state. -/
structure IsUndefined (program : Program) (p : RunnerId) (t : Transition) : Prop where
  pending : program.nextSteps.lookup p = some t
  executor : t.executor = p
  active : program.stateSeq.toState.Active p
  undefined : ∃ d, t.modify (DiffState.ofState program.stateSeq.toState) = .ok (.undefined, d)

/-- Every layer tells that `p` is about to do something undefined, and none takes it to be
blocked. -/
structure KeptApart (program : Program) (p : RunnerId) (t : Transition) : Prop where
  applyTo : ∃ d, t.applyTo program.stateSeq.toState = .ok (d, .undefined)
  follow : ∃ s, program.stateSeq.follow t = (s, .ok .undefined)
  modelExecutionOf : ∀ npo : Transition, npo.executor = p → program.modelExecutionOf p npo =
    .error (.runtimeError ("Attempted to model the execution of a undefined transition(" ++
      t.debugString ++ ")"))
  notBlocked : t.isEnabledIn program.stateSeq.toState ≠ .ok false
  notDeadlock : program.isInDeadlock ≠ .ok true

/-- Every layer takes `p` to be blocked. -/
structure TreatedAsBlocked (program : Program) (p : RunnerId) (t : Transition) : Prop where
  applyTo : t.applyTo program.stateSeq.toState =
    .ok (DiffState.ofState program.stateSeq.toState, .disabled)
  follow : program.stateSeq.follow t = (program.stateSeq, .ok .disabled)
  modelExecutionOf : ∀ npo : Transition, npo.executor = p → program.modelExecutionOf p npo =
    .error (.runtimeError ("Attempted to model the execution of a disabled transition(" ++
      t.debugString ++ ")"))
  blocked : t.isEnabledIn program.stateSeq.toState = .ok false
  unscheduled : ∀ enabled, program.getEnabledRunners = .ok enabled → p ∉ enabled

theorem applyTo_eq_disabled {s : State} (hactive : s.Active t.executor)
    (h : ∃ d, t.modify (DiffState.ofState s) = .ok (.undefined, d)) :
    t.applyTo s = .ok (DiffState.ofState s, .disabled) := by
  obtain ⟨d, hd⟩ := h
  obtain ⟨th, hth, hact⟩ := State.active_iff.mp hactive
  have hstate := State.getStateOfRunner_eq_ok.mpr hth
  simp [Transition.applyTo, Transition.applyBy, hstate, hact, hd, bind, Except.bind, pure, Except.pure]

theorem IsUndefined.treatedAsBlocked (h : IsUndefined program p t) :
    TreatedAsBlocked program p t := by
  have happly := applyTo_eq_disabled (h.executor.symm ▸ h.active) h.undefined
  have hfollow : program.stateSeq.follow t = (program.stateSeq, .ok .disabled) := by
    simp only [StateSequence.follow, happly]
  have hblocked : t.isEnabledIn program.stateSeq.toState = .ok false := by
    simp only [Transition.isEnabledIn, happly]
    rfl
  refine ⟨happly, hfollow, fun npo hnpo => ?_, hblocked, fun enabled henabled hp => ?_⟩
  · subst hnpo
    simp [Program.modelExecutionOf, Program.modelExecutionBy, h.pending, hfollow]
  · have hpass := ((filterM_eq_ok henabled).2 p).mp hp
    simp [h.pending, hblocked] at hpass

theorem TreatedAsBlocked.not_keptApart (h : TreatedAsBlocked program p t) :
    ¬ KeptApart program p t := fun hkept => hkept.notBlocked h.blocked

/-- Each runner's pending transition is its own. -/
def Program.Keyed (program : Program) : Prop :=
  ∀ q u, program.nextSteps.lookup q = some u → u.executor = q

/-- No pending transition is enabled, and all of them can be examined. -/
def Program.AllDisabledBy (isEnabled : Transition → Except Failure Bool) (program : Program) :
    Prop :=
  ∀ q u, program.nextSteps.lookup q = some u → isEnabled u = .ok false

def Program.AllDisabled (program : Program) : Prop :=
  program.AllDisabledBy (·.isEnabledIn program.stateSeq.toState)

/-- A transition can be examined only in a state which has its executor. -/
def Program.ExaminesExecutors (isEnabled : Transition → Except Failure Bool) (program : Program) :
    Prop :=
  ∀ u b, isEnabled u = .ok b →
    ∃ th, program.stateSeq.toState.getStateOfRunner u.executor = .ok th

theorem Program.examinesExecutors (program : Program) :
    program.ExaminesExecutors (·.isEnabledIn program.stateSeq.toState) := by
  intro u b hasked
  unfold Transition.isEnabledIn at hasked
  obtain ⟨r, happly, -⟩ := bind_eq_ok.mp hasked
  unfold Transition.applyTo Transition.applyBy at happly
  obtain ⟨th, hth, -⟩ := bind_eq_ok.mp happly
  exact ⟨th, hth⟩

section Deadlock

variable {isEnabled : Transition → Except Failure Bool}

theorem Program.allDisabledBy_iff : program.AllDisabledBy isEnabled ↔
    program.pending.anyM isEnabled = .ok false := by
  rw [anyM_eq_ok_false]
  refine ⟨fun h u hu => ?_, fun h q u hu => ?_⟩
  · obtain ⟨q, -, hq⟩ := List.mem_filterMap.mp hu
    exact h q u hq
  · exact h u (List.mem_filterMap.mpr ⟨q, Program.mem_runners.mpr ⟨u, hu⟩, hu⟩)

/-- A runner whose transition has been examined has a state. -/
theorem Program.AllDisabledBy.getStateOfRunner (h : program.AllDisabledBy isEnabled)
    (hexamines : program.ExaminesExecutors isEnabled) (hkeyed : program.Keyed) :
    ∀ q ∈ program.runners, ∃ th, program.stateSeq.toState.getStateOfRunner q = .ok th := by
  intro q hq
  obtain ⟨u, hu⟩ := Program.mem_runners.mp hq
  obtain ⟨th, hth⟩ := hexamines u false (h q u hu)
  exact ⟨th, hkeyed q u hu ▸ hth⟩

/-- The program is in a deadlock when the pending transitions can be examined, none of them is
enabled, and one of their runners has not exited. -/
theorem isInDeadlockBy_eq_ok_true (hexamines : program.ExaminesExecutors isEnabled)
    (hkeyed : program.Keyed) :
    program.isInDeadlockBy isEnabled = .ok true ↔ program.AllDisabledBy isEnabled ∧
      ∃ q u, program.nextSteps.lookup q = some u ∧
        ¬ program.stateSeq.toState.HasThread q ⟨.exited⟩ := by
  -- the last question is about the states of all runners, which can be read where nothing is
  -- enabled
  have hleft : ∀ {states : List Thread},
      (∀ th, th ∈ states ↔ ∃ q ∈ program.runners,
        program.stateSeq.toState.getStateOfRunner q = .ok th) → program.AllDisabledBy isEnabled →
      ((!states.all (·.hasExited)) = true ↔ ∃ q u, program.nextSteps.lookup q = some u ∧
        ¬ program.stateSeq.toState.HasThread q ⟨.exited⟩) := by
    intro states hmem hdisabled
    rw [Bool.not_eq_true', List.all_eq_false]
    constructor
    · rintro ⟨th, hth, hexited⟩
      obtain ⟨q, hq, hask⟩ := (hmem th).mp hth
      obtain ⟨u, hu⟩ := Program.mem_runners.mp hq
      refine ⟨q, u, hu, fun hgone => hexited ?_⟩
      rw [(State.getStateOfRunner_eq_ok.mp hask).unique hgone]
      rfl
    · rintro ⟨q, u, hu, hgone⟩
      have hq := Program.mem_runners.mpr ⟨u, hu⟩
      obtain ⟨th, hth⟩ := hdisabled.getStateOfRunner hexamines hkeyed q hq
      refine ⟨th, (hmem th).mpr ⟨q, hq, hth⟩, fun hexited => hgone ?_⟩
      obtain ⟨state⟩ := th
      obtain rfl : state = .exited := by simpa [Thread.hasExited] using hexited
      exact State.getStateOfRunner_eq_ok.mp hth
  constructor
  · intro h
    unfold Program.isInDeadlockBy at h
    by_cases hempty : program.pending.isEmpty = true
    · rw [if_pos hempty] at h
      cases Except.ok.inj h
    · rw [if_neg hempty] at h
      -- without a pending transition, or with an enabled one, the answer is no
      obtain ⟨_ | _, hany, h⟩ := bind_eq_ok.mp h
      · rw [if_neg Bool.false_ne_true] at h
        obtain ⟨states, hmap, hanswer⟩ := bind_eq_ok.mp h
        have hdisabled := Program.allDisabledBy_iff.mpr hany
        obtain ⟨states', hmap', hmem⟩ := exists_mapM_eq_ok (hdisabled.getStateOfRunner hexamines hkeyed)
        obtain rfl := Except.ok.inj (hmap'.symm.trans hmap)
        exact ⟨hdisabled, (hleft hmem hdisabled).mp (Except.ok.inj hanswer)⟩
      · rw [if_pos rfl] at h
        cases Except.ok.inj h
  · rintro ⟨hdisabled, q, u, hu, hgone⟩
    obtain ⟨states, hmap, hmem⟩ := exists_mapM_eq_ok (hdisabled.getStateOfRunner hexamines hkeyed)
    have hempty : program.pending.isEmpty = false := by
      rw [List.isEmpty_eq_false_iff]
      exact List.ne_nil_of_mem
        (List.mem_filterMap.mpr ⟨q, Program.mem_runners.mpr ⟨u, hu⟩, hu⟩)
    have hanswer := (hleft hmem hdisabled).mpr ⟨q, u, hu, hgone⟩
    simp only [Program.isInDeadlockBy, hempty, Program.allDisabledBy_iff.mp hdisabled, hmap, bind,
      Except.bind, pure, Except.pure, Bool.false_eq_true, if_false, hanswer]

end Deadlock

theorem isInDeadlock_eq_ok_true (hkeyed : program.Keyed) :
    program.isInDeadlock = .ok true ↔ program.AllDisabled ∧
      ∃ q u, program.nextSteps.lookup q = some u ∧
        ¬ program.stateSeq.toState.HasThread q ⟨.exited⟩ :=
  isInDeadlockBy_eq_ok_true program.examinesExecutors hkeyed

/-- When no pending transition is enabled and one of the runners has not exited, the program
is in a deadlock. -/
theorem isInDeadlock_of_active (hkeyed : program.Keyed) {enabled : List RunnerId}
    (henabled : program.getEnabledRunners = .ok enabled) (hnone : ∀ q, q ∉ enabled)
    (hp : program.nextSteps.lookup p = some t) (hactive : program.stateSeq.toState.Active p) :
    program.isInDeadlock = .ok true := by
  obtain ⟨hasked, hpass⟩ := filterM_eq_ok henabled
  refine (isInDeadlock_eq_ok_true hkeyed).mpr ⟨fun q u hu => ?_, p, t, hp, fun hgone => ?_⟩
  · have hq : q ∈ program.runners := Program.mem_runners.mpr ⟨u, hu⟩
    obtain ⟨b, hb⟩ := hasked q hq
    have hno := mt (hpass q).mpr (hnone q)
    rw [hu] at hb hno
    cases b with
    | false => exact hb
    | true => exact absurd ⟨hq, hb⟩ hno
  · cases hgone.unique hactive

end Program

/-! ### Runs of the search -/

variable {source : ProcessSource} {config : Configuration} {callbacks : Finset Callback}
  {c c' : Coordinator} {s s' : Search} {p : RunnerId} {t : Transition}

theorem keyed_insert {program : Program} (h : program.Keyed) (u : Transition) :
    ∀ q v, (program.nextSteps.insert u.executor u).lookup q = some v → v.executor = q := by
  intro q v hv
  rw [lookup_insert] at hv
  split_ifs at hv with hq
  · exact Option.some.inj hv ▸ hq
  · exact h q v hv

theorem Program.Keyed.restoreModelAtDepth {program : Program} (h : program.Keyed) (n : ℕ) :
    (program.restoreModelAtDepth n).1.Keyed := by
  show ∀ q t, (program.restoredSteps n).lookup q = some t → t.executor = q
  rw [Program.restoredSteps]
  refine List.foldlRecOn (motive := fun steps : Finmap fun _ : RunnerId => Transition =>
    ∀ q t, steps.lookup q = some t → t.executor = q) _ _ h fun steps hsteps e _ => ?_
  cases program.trace[e.2]? with
  | none => exact hsteps
  | some t => exact @keyed_insert ⟨program.stateSeq, [], steps⟩ hsteps t

theorem executeRunner_keyed (h : c.currentProgramModel.Keyed)
    (hrun : (executeRunner source p).run c = (.ok (), c')) : c'.currentProgramModel.Keyed := by
  obtain ⟨contents, u, c₁, next, s', -, hcallback, rfl, -, -, rfl⟩ := executeRunner_eq_ok hrun
  have hobserves := observing_callback u.executor contents (c.afterProcess u.executor)
  rw [hcallback] at hobserves
  exact keyed_insert (hobserves.keyed h) u

/-- What the search keeps about pending transitions: each runner's is its own, and in front
of the exploration loop the item at the top knows which of them are enabled. -/
structure PendingKnown (s : Search) : Prop where
  keyed : s.coordinator.currentProgramModel.Keyed
  enabled : s.phase = .exploration → ∀ init back, s.stack = init ++ [back] →
    ∃ enabled, s.coordinator.currentProgramModel.getEnabledRunners = .ok enabled ∧
      back.enabledRunners = enabled.toFinset

theorem PendingKnown.expand {stack : List StackItem} (h : c.currentProgramModel.Keyed)
    (hrun : (continueDporByExpandingTraceWith source config p stack).run c =
      (.ok s.stack, s.coordinator)) : PendingKnown s := by
  obtain ⟨hexecute, grown, hgrow, hupdate⟩ := continueDporByExpandingTraceWith_eq_ok hrun
  refine ⟨executeRunner_keyed h hexecute, fun _ init back hstack => ?_⟩
  obtain ⟨below, s_n, t_n, cv, clocks, enabled, asleep, -, -, -, -, -, henabled, -, rfl⟩ :=
    growStackAfterRunning_eq_ok hgrow
  refine ⟨enabled, henabled, ?_⟩
  have hlast := congrArg List.getLast? (dynamicallyUpdateBacktrackSets_map hupdate)
  rw [List.getLast?_map, List.getLast?_map, hstack] at hlast
  have hback : back.withoutBacktrackSet.enabledRunners = enabled.toFinset := by
    have hsome := Option.some.inj (by simpa using hlast)
    rw [hsome]
    rfl
  exact hback

theorem PendingKnown.step (h : PendingKnown s) (hstep : Steps source config callbacks s s') :
    PendingKnown s' := by
  cases hstep.move with
  | explore init back _ _ _ _ hrun => exact .expand h.keyed hrun
  | follow init back rid _ _ _ _ hrun => exact .expand h.keyed hrun
  | finish _ _ hstack hcoordinator =>
    refine ⟨hcoordinator ▸ h.keyed, fun _ init back hnew => ?_⟩
    rw [hstack] at hnew
    simp at hnew
  | goBack init back hphase _ hrun _ =>
    refine ⟨?_, fun hexploration => ?_⟩
    · rw [(returnToDepth_currentProgramModel hrun).1]
      exact h.keyed.restoreModelAtDepth _
    · rw [hphase.2] at hexploration
      cases hexploration

theorem pendingKnown_of_reachable (hc : c.currentProgramModel.Keyed)
    (h : Search.Reachable source config callbacks c s) : PendingKnown s := by
  obtain ⟨s₀, hstart, hrun⟩ := h
  obtain ⟨enabled, henabled, hstart⟩ := bind_eq_ok.mp hstart
  obtain rfl := Except.ok.inj hstart
  induction hrun with
  | refl =>
    refine ⟨hc, fun _ init back hstack => ⟨enabled, henabled, ?_⟩⟩
    have hback := congrArg List.getLast? hstack
    rw [List.getLast?_concat] at hback
    exact (Option.some.inj hback) ▸ rfl
  | tail _ hstep ih => exact ih.step hstep

/-- **Undefined behavior is taken for blocking**, in every state and for every runner. When the
search reaches such a state it leaves the runner alone, and when nobody else can move there it
reports a deadlock. -/
theorem treatedAsBlocked_of_undefined {program : Program} (h : IsUndefined program p t) :
    ¬ KeptApart program p t ∧ TreatedAsBlocked program p t ∧
      ∀ source config callbacks c s, c.currentProgramModel.Keyed →
        Search.Reachable source config callbacks c s →
        s.phase = .exploration → s.coordinator.currentProgramModel = program →
        ∀ init back, s.stack = init ++ [back] → p ∉ back.enabledRunners ∧
          (back.enabledRunners = ∅ → .deadlock ∈ callbacks →
            s.completeTrace callbacks = .ok ((s.invoke callbacks .traceCompleted none).invoke
              callbacks .deadlock none)) := by
  have hblocked := h.treatedAsBlocked
  refine ⟨hblocked.not_keptApart, hblocked, ?_⟩
  intro source config callbacks c s hkeyed hreach hphase hprogram init back hstack
  obtain ⟨hkeyed', hknown⟩ := pendingKnown_of_reachable hkeyed hreach
  obtain ⟨enabled, henabled, hback⟩ := hknown hphase init back hstack
  subst hprogram
  refine ⟨?_, fun hempty hset => ?_⟩
  · rw [hback, List.mem_toFinset]
    exact hblocked.unscheduled enabled henabled
  · have hnone : ∀ q, q ∉ enabled := by
      intro q hq
      have hmem : q ∈ back.enabledRunners := hback ▸ List.mem_toFinset.mpr hq
      exact absurd (hempty ▸ hmem) (Finset.notMem_empty q)
    have hdeadlock := isInDeadlock_of_active hkeyed' henabled hnone h.pending h.active
    have hmodel : (s.invoke callbacks .traceCompleted none).coordinator = s.coordinator := by
      unfold invoke
      split_ifs
      · rfl
      · rfl
    simp [completeTrace, hset, hmodel, hdeadlock, bind, Except.bind, pure, Except.pure]

/-- The main thread initializes a condition variable, destroys it and signals it. -/
private def signalling : ProcessSource := fun executed _ =>
  match executed.length with
  | 0 => .ok (.condInit 100)
  | 1 => .ok (.condDestroy 100)
  | _ => .ok (.condSignal 100 false)

private def searchOfSignalling : ℕ → Search
  | 0 => { coordinator := .atMain, stack := [{ cv := .empty, enabledRunners := {0} }] }
  | n + 1 =>
    match (searchOfSignalling n).step signalling {} {.deadlock} with
    | .continues s => s
    | _ => searchOfSignalling n

private theorem reachable_searchOfSignalling :
    Search.Reachable signalling {} {.deadlock} .atMain (searchOfSignalling 3) := by
  have hsteps : ∀ n < 3, Steps signalling {} {.deadlock} (searchOfSignalling n)
      (searchOfSignalling (n + 1))
    | 0, _ | 1, _ | 2, _ => by rfl
  exact ⟨searchOfSignalling 0, by rfl,
    ((Relation.ReflTransGen.single (hsteps 0 (by omega))).tail (hsteps 1 (by omega))).tail
      (hsteps 2 (by omega))⟩

private theorem isUndefined_searchOfSignalling :
    IsUndefined (searchOfSignalling 3).coordinator.currentProgramModel 0
      ⟨0, .conditionVariableSignal 1⟩ := by
  refine ⟨by rfl, rfl, ?_, _, by rfl⟩
  exact State.getStateOfRunner_eq_ok.mp (by rfl)

/-- Signalling the destroyed condition variable is a deadlock to the search. -/
theorem not_keptApart_of_reachable :
    ¬ ∀ source config callbacks c s p t, c.Initial →
      Search.Reachable source config callbacks c s →
      IsUndefined s.coordinator.currentProgramModel p t →
      KeptApart s.coordinator.currentProgramModel p t := by
  intro h
  have hkept := h signalling {} {.deadlock} .atMain (searchOfSignalling 3) 0
    ⟨0, .conditionVariableSignal 1⟩ Coordinator.initial_atMain reachable_searchOfSignalling
    isUndefined_searchOfSignalling
  exact hkept.notDeadlock (by rfl)

theorem treatedAsBlocked_of_signalling :
    TreatedAsBlocked (searchOfSignalling 3).coordinator.currentProgramModel 0
        ⟨0, .conditionVariableSignal 1⟩ ∧
      (searchOfSignalling 3).completeTrace {.deadlock} =
        .ok ((searchOfSignalling 3).invoke {.deadlock} .deadlock none) := by
  obtain ⟨-, hblocked, hsearch⟩ := treatedAsBlocked_of_undefined isUndefined_searchOfSignalling
  have hlast : (searchOfSignalling 3).stack.getLast?.map (·.enabledRunners) = some ∅ := by rfl
  obtain ⟨back, hback, hempty⟩ := Option.map_eq_some_iff.mp hlast
  obtain ⟨init, hstack⟩ := List.getLast?_eq_some_iff.mp hback
  obtain ⟨-, hcomplete⟩ := hsearch signalling {} {.deadlock} .atMain (searchOfSignalling 3)
    Coordinator.initial_atMain.keyed reachable_searchOfSignalling rfl rfl init back hstack
  exact ⟨hblocked, hcomplete hempty (by decide)⟩

end McMini
