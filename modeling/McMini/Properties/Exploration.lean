import McMini.Model.Coordinator
import McMini.Properties.Backtracking

/-!
# The model of a schedule

The exploration executes runners and goes back, over and over. What it finds on one branch
should not depend on the branches it left before: the model should be a function of the
current schedule. Two things interfere.

* Going back to depth `0` restores nothing of the pending transitions, since the bound of
  the loop over the trace wraps around.
* The objects and runners which the callbacks added on an abandoned branch stay in the
  lists of the owner, among the pending transitions and in the map of addresses.

`agree_of_executed_eq` shows that nothing else does.
-/

namespace McMini

open Foundation

/-! ### What the callbacks do -/

namespace Coordinator

/-- The coordinator has at most added objects and runners to its model. -/
structure Observes (c c' : Coordinator) : Prop where
  executed : c'.executed = c.executed
  trace : c'.currentProgramModel.trace = c.currentProgramModel.trace
  earlier : c'.getStateSequence.earlier = c.getStateSequence.earlier
  settled : c.getStateSequence.Settled → c'.getStateSequence.Settled
  keyed : (∀ q t, c.currentProgramModel.nextSteps.lookup q = some t → t.executor = q) →
    ∀ q t, c'.currentProgramModel.nextSteps.lookup q = some t → t.executor = q

theorem Observes.refl (c : Coordinator) : Observes c c := ⟨rfl, rfl, rfl, id, id⟩

theorem observes_observe (c : Coordinator) (handle : Addr) (o : VisibleObjectState) :
    Observes c (c.observe handle o) :=
  ⟨rfl, rfl, rfl, fun hs => hs.addObject o, id⟩

end Coordinator

open Coordinator

/-- A computation which at most adds to the model. -/
def Observing {α : Type} (x : CoordinatorM α) : Prop := ∀ c, Observes c (x.run c).2

theorem observing_observeRunner (handle : Addr) (t : Thread) (f : RunnerId → Transition) :
    Observing (observeRunner handle t f) := by
  intro c
  unfold observeRunner
  simp only [run_bind, run_get]
  cases hcontains : c.contains handle with
  | true => exact .refl c
  | false =>
    have hearlier : (c.getStateSequence.addRunner t).1.earlier = c.getStateSequence.earlier := by
      simp only [StateSequence.addRunner, StateSequence.addObject]
      split <;> rfl
    cases (c.getStateSequence.addRunner t).2 with
    | error e =>
      exact ⟨rfl, rfl, hearlier, fun hs => (hs.addRunner t).1, id⟩
    | ok id =>
      refine ⟨rfl, rfl, hearlier, fun hs => (hs.addRunner t).1, fun hk q t' ht => ?_⟩
      have hlookup : (c.currentProgramModel.nextSteps.insert (f id).executor (f id)).lookup q =
          some t' := ht
      rw [lookup_insert] at hlookup
      split_ifs at hlookup with hq
      · exact Option.some.inj hlookup ▸ hq
      · exact hk q t' hlookup

theorem Adds.observes {c c' : Coordinator} (h : Adds c c') : Observes c c' := by
  cases h with
  | nothing => exact .refl c
  | object => exact observes_observe c _ _
  | runner => exact observing_observeRunner _ _ _ c

theorem observing_callback (p : RunnerId) (contents : MailboxContents) :
    Observing (callback p contents) := fun c => (callback_adds p contents c).observes

/-- A callback which knows the address it is told changes nothing. -/
theorem callback_unchanged {p : RunnerId} {contents : MailboxContents} {c : Coordinator}
    (h : ∀ a, contents.observed = some a → c.contains a = true) :
    ((callback p contents).run c).2 = c := by
  have hensure : ∀ {a o} {g : ObjId → Transition}, c.contains a = true →
      ((ensureObserved a o >>= fun _ => modelOf a >>= fun i => pure (g i)).run c).2 = c := by
    intro a o g ha
    simp only [run_bind, ensureObserved_run, ha, if_true, modelOf_run, run_pure]
  have hinitialized : ∀ {a st o message} {x : CoordinatorM Transition}, c.contains a = true →
      (x.run c).2 = c → ((ensureInitialized a st o message >>= fun _ => x).run c).2 = c := by
    intro a st o message x ha hx
    simp only [run_bind, ensureInitialized_run, ha, if_true]
    exact hx
  have hrequire : ∀ {a message} {x : CoordinatorM Transition}, (x.run c).2 = c →
      ((requireObserved a message >>= fun _ => x).run c).2 = c := by
    intro a message x hx
    simp only [run_bind, requireObserved_run]
    cases c.contains a with
    | false => rfl
    | true => exact hx
  cases contents with
  | mutexInit a | condInit a | semInit a => exact hensure (h a rfl)
  | mutexLock a | condSignal a | condBroadcast a => exact hinitialized (h a rfl) rfl
  | mutexUnlock a | condDestroy a | semPost a | semWait a => exact hrequire rfl
  | condEnqueue a m => exact hinitialized (h a rfl) (hrequire rfl)
  | condWait a m => exact hrequire (hrequire rfl)
  | semDestroy a => exact hrequire rfl
  | threadCreate a =>
    simp only [callback, threadCreateCallback, run_bind, run_get]
    cases hrunner : c.containsRunner a with
    | true => rfl
    | false =>
      simp [run_bind, observeRunner_run_of_contains (h a rfl)]
  | threadJoin target =>
    simp only [callback, threadJoinCallback]
    by_cases ht : target = ridInvalid
    · rw [if_pos ht]
      rfl
    · rw [if_neg ht]
      rfl
  | threadExit | processExit | processAbort | unregistered => rfl

/-! ### Executing a runner -/

section Execute

variable {source : ProcessSource} {p : RunnerId} {c c' : Coordinator} {program program' : Program}
  {t : Transition}

/-- The process has executed the runner. -/
def Coordinator.afterProcess (c : Coordinator) (p : RunnerId) : Coordinator :=
  { c with executed := c.executed ++ [p] }

theorem processExecute_run (source : ProcessSource) (p : RunnerId) (c : Coordinator) :
    (processExecute source p).run c = (source c.executed p, c.afterProcess p) := by
  rw [processExecute, run_bind, run_get]
  dsimp only
  rw [run_bind]
  cases source c.executed p with
  | error e => rfl
  | ok contents => rfl

theorem executeRunner_run (source : ProcessSource) (p : RunnerId) (c : Coordinator) :
    (executeRunner source p).run c =
      match source c.executed p with
      | .error e => (.error e, c.afterProcess p)
      | .ok contents =>
        match (callback p contents).run (c.afterProcess p) with
        | (.error e, c₁) => (.error e, c₁)
        | (.ok t, c₁) =>
          match c₁.currentProgramModel.modelExecutionOf p t with
          | .error e => (.error e, c₁)
          | .ok program => (.ok (), { c₁ with currentProgramModel := program }) := by
  rw [executeRunner, run_bind, processExecute_run]
  cases source c.executed p with
  | error e => rfl
  | ok contents =>
    dsimp only
    rw [run_bind]
    rcases (callback p contents).run (c.afterProcess p) with ⟨_ | t, c₁⟩
    · rfl
    · dsimp only
      rw [run_bind, run_get]
      dsimp only
      cases c₁.currentProgramModel.modelExecutionOf p t <;> rfl

/-- What executing a runner does when it does not throw. -/
theorem executeRunner_eq_ok (h : (executeRunner source p).run c = (.ok (), c')) :
    ∃ contents t c₁ next s', source c.executed p = .ok contents ∧
      (callback p contents).run (c.afterProcess p) = (.ok t, c₁) ∧ t.executor = p ∧
      c₁.currentProgramModel.nextSteps.lookup p = some next ∧
      c₁.getStateSequence.follow next = (s', .ok .exists') ∧
      c' = { c₁ with currentProgramModel :=
        ⟨s', c₁.currentProgramModel.trace ++ [next],
          c₁.currentProgramModel.nextSteps.insert p t⟩ } := by
  rw [executeRunner_run] at h
  cases hsource : source c.executed p with
  | error e =>
    rw [hsource] at h
    cases (Prod.mk.inj h).1
  | ok contents =>
    rw [hsource] at h
    dsimp only at h
    rcases hcallback : (callback p contents).run (c.afterProcess p) with ⟨_ | t, c₁⟩
    · rw [hcallback] at h
      cases (Prod.mk.inj h).1
    · rw [hcallback] at h
      dsimp only at h
      cases hmodel : c₁.currentProgramModel.modelExecutionOf p t with
      | error e =>
        rw [hmodel] at h
        cases (Prod.mk.inj h).1
      | ok program =>
        rw [hmodel] at h
        obtain ⟨hp, next, s', hnext, hfollow, rfl⟩ := modelExecutionOf_eq_ok.mp hmodel
        exact ⟨contents, t, c₁, next, s', rfl, hcallback, hp, hnext, hfollow,
          (Prod.mk.inj h).2.symm⟩

/-- Executing `p` makes a callback add an object or a runner. -/
def Discovers (source : ProcessSource) (c : Coordinator) (p : RunnerId) : Prop :=
  ∃ contents a, source c.executed p = .ok contents ∧ contents.observed = some a ∧
    c.contains a = false

theorem callback_unchanged_of_not_discovers (h : ¬ Discovers source c p)
    {contents : MailboxContents} (hsource : source c.executed p = .ok contents) :
    ((callback p contents).run (c.afterProcess p)).2 = c.afterProcess p := by
  refine callback_unchanged fun a ha => ?_
  by_contra hcontains
  exact h ⟨contents, a, hsource, ha, Bool.not_eq_true _ ▸ hcontains⟩

/-- When executing a runner throws, and nothing was added, only the process has advanced. -/
theorem executeRunner_eq_error {e : Failure} (h : ¬ Discovers source c p)
    (hrun : (executeRunner source p).run c = (.error e, c')) : c' = c.afterProcess p := by
  rw [executeRunner_run] at hrun
  cases hsource : source c.executed p with
  | error e =>
    rw [hsource] at hrun
    exact (Prod.mk.inj hrun).2.symm
  | ok contents =>
    have hunchanged := callback_unchanged_of_not_discovers h hsource
    rw [hsource] at hrun
    dsimp only at hrun
    rcases hcallback : (callback p contents).run (c.afterProcess p) with ⟨_ | t, c₁⟩
    · rw [hcallback] at hrun hunchanged
      exact (Prod.mk.inj hrun).2.symm.trans hunchanged
    · rw [hcallback] at hrun hunchanged
      dsimp only at hrun hunchanged
      cases hmodel : c₁.currentProgramModel.modelExecutionOf p t with
      | error e =>
        rw [hmodel] at hrun
        exact (Prod.mk.inj hrun).2.symm.trans hunchanged
      | ok program =>
        rw [hmodel] at hrun
        cases (Prod.mk.inj hrun).1

/-- A process and a model in step: the process has executed the trace, each state of the
sequence follows from the one before by a transition of the trace, and the process answers
when the trace is executed again. -/
structure InStep (source : ProcessSource) (c : Coordinator) : Prop where
  executed : c.executed = c.currentProgramModel.trace.map (·.executor)
  length : c.getStateSequence.earlier.length = c.currentProgramModel.trace.length
  settled : c.getStateSequence.Settled
  keyed : ∀ q t, c.currentProgramModel.nextSteps.lookup q = some t → t.executor = q
  responds : ∀ pre p post, c.executed = pre ++ p :: post → ∃ contents, source pre p = .ok contents

theorem InStep.executeRunner (h : InStep source c)
    (hrun : (executeRunner source p).run c = (.ok (), c')) : InStep source c' := by
  obtain ⟨contents, t, c₁, next, s', hsource, hcallback, hp, hnext, hfollow, rfl⟩ :=
    executeRunner_eq_ok hrun
  have hobserves := observing_callback p contents (c.afterProcess p)
  rw [hcallback] at hobserves
  have hexecuted : c₁.executed = c.executed ++ [p] := hobserves.executed
  have htrace : c₁.currentProgramModel.trace = c.currentProgramModel.trace := hobserves.trace
  have hearlier : c₁.getStateSequence.earlier = c.getStateSequence.earlier := hobserves.earlier
  have hkeyed := hobserves.keyed h.keyed
  refine ⟨?_, ?_, ?_, ?_, ?_⟩
  · show c₁.executed = (c₁.currentProgramModel.trace ++ [next]).map (·.executor)
    rw [hexecuted, htrace, h.executed, List.map_append, List.map_singleton, hkeyed p next hnext]
  · show s'.earlier.length = (c₁.currentProgramModel.trace ++ [next]).length
    rw [StateSequence.follow_exists_earlier hfollow, List.length_append, List.length_append, hearlier, htrace,
      h.length]
    rfl
  · exact (hobserves.settled h.settled).follow hfollow
  · intro q u hu
    have hlookup : (c₁.currentProgramModel.nextSteps.insert p t).lookup q = some u := hu
    rw [lookup_insert] at hlookup
    split_ifs at hlookup with hq
    · exact (Option.some.inj hlookup ▸ hp).trans hq
    · exact hkeyed q u hlookup
  · intro pre q post heq
    have heq' : c.executed ++ [p] = pre ++ q :: post := hexecuted.symm.trans heq
    rcases List.eq_nil_or_concat' post with rfl | ⟨post, r, rfl⟩
    · obtain ⟨rfl, hq⟩ := List.append_inj' heq' rfl
      obtain rfl := List.singleton_inj.mp hq
      exact ⟨contents, hsource⟩
    · have heq'' : c.executed ++ [p] = (pre ++ q :: post) ++ [r] := by rw [heq']; simp
      exact h.responds pre q post (List.append_inj' heq'' rfl).1

theorem InStep.model (h : InStep source c) : c.currentProgramModel.InStep :=
  ⟨h.length, h.settled, h.keyed⟩

/-! ### Extending a schedule without discoveries -/

/-- The coordinator `c` has executed the transitions `ts` since it was `base`, and has
discovered nothing. -/
structure Extends (base c : Coordinator) (ts : List Transition) : Prop where
  trace : c.currentProgramModel.trace = base.currentProgramModel.trace ++ ts
  mapping : c.systemAddressMapping = base.systemAddressMapping
  runners : c.getStateSequence.runnerToObjMap = base.getStateSequence.runnerToObjMap
  elements : base.getStateSequence.statesInSequence <+: c.getStateSequence.statesInSequence
  objects : c.getStateSequence.visibleObjects.length = base.getStateSequence.visibleObjects.length
  histories : ∀ (i : ObjId) (v : VisibleObject),
    base.getStateSequence.visibleObjects[i]? = some v →
    ∃ v' : VisibleObject, c.getStateSequence.visibleObjects[i]? = some v' ∧
      v.history <+: v'.history
  pending : ∀ q, base.currentProgramModel.nextSteps.lookup q =
    (ts.find? (·.executor == q)).or (c.currentProgramModel.nextSteps.lookup q)

theorem Extends.refl (c : Coordinator) : Extends c c [] :=
  ⟨by simp, rfl, rfl, List.prefix_rfl, rfl, fun _ v hv => ⟨v, hv, List.prefix_rfl⟩, by simp⟩

theorem extends_iff {base : Coordinator} {ts : List Transition} :
    Extends base c ts ↔ base.currentProgramModel.Extends c.currentProgramModel ts ∧
      c.systemAddressMapping = base.systemAddressMapping :=
  ⟨fun h => ⟨⟨h.trace, h.runners, h.elements, h.objects, h.histories, h.pending⟩, h.mapping⟩,
    fun ⟨h, hmapping⟩ =>
      ⟨h.trace, hmapping, h.runners, h.elements, h.objects, h.histories, h.pending⟩⟩

theorem Extends.executeRunner {base : Coordinator} {ts : List Transition}
    (h : Extends base c ts)
    (hkeyed : ∀ q t, c.currentProgramModel.nextSteps.lookup q = some t → t.executor = q)
    (hdiscovers : ¬ Discovers source c p)
    (hrun : (executeRunner source p).run c = (.ok (), c')) :
    ∃ t, t.executor = p ∧ Extends base c' (ts ++ [t]) := by
  obtain ⟨contents, t, c₁, next, s', hsource, hcallback, hp, hnext, hfollow, rfl⟩ :=
    executeRunner_eq_ok hrun
  have hc₁ := callback_unchanged_of_not_discovers hdiscovers hsource
  rw [hcallback] at hc₁
  obtain rfl : c₁ = c.afterProcess p := hc₁
  obtain ⟨hextends, hmapping⟩ := extends_iff.mp h
  obtain ⟨u, hu, hextends'⟩ := hextends.modelExecutionOf hkeyed
    (modelExecutionOf_eq_ok.mpr ⟨hp, next, s', hnext, hfollow, rfl⟩)
  exact ⟨u, hu, extends_iff.mpr ⟨hextends', hmapping⟩⟩

end Execute

/-! ### Going back -/

section Return

variable {source : ProcessSource} {p : RunnerId} {base c c' : Coordinator} {ts : List Transition}

/-- A new process executes the runners again, if it answers. -/
theorem replay_run (ps : List RunnerId) (c : Coordinator)
    (h : ∀ pre p post, ps = pre ++ p :: post →
      ∃ contents, source (c.executed ++ pre) p = .ok contents) :
    (replay source ps).run c = (.ok (), { c with executed := c.executed ++ ps }) := by
  induction ps generalizing c with
  | nil => simp [replay, run_pure]
  | cons p ps ih =>
    obtain ⟨contents, hcontents⟩ := h [] p ps rfl
    rw [List.append_nil] at hcontents
    rw [replay, run_bind, processExecute_run, hcontents]
    dsimp only
    rw [ih]
    · simp [Coordinator.afterProcess]
    · intro pre q post heq
      have h' := h (p :: pre) q post (by rw [heq]; rfl)
      simpa [Coordinator.afterProcess] using h'

/-- **Going back restores the coordinator**, when nothing has been discovered since, and
unless a trace is taken back to depth `0`. -/
theorem Extends.returnToDepth (h : Extends base c ts) (hbase : InStep source base)
    (hc : InStep source c) (hts : ts = [] → base = c)
    (hdepth : 1 ≤ base.currentProgramModel.trace.length ∨ c.currentProgramModel.trace = []) :
    (returnToDepth source base.currentProgramModel.trace.length).run c = (.ok (), base) := by
  have hrestore := (extends_iff.mp h).1.restoreModelAtDepth hbase.model hc.model
    (fun hnil => by rw [hts hnil]) hdepth
  have hreplay := replay_run (base.currentProgramModel.trace.map (·.executor))
    { c with currentProgramModel := base.currentProgramModel, executed := [] } (by
      rw [← hbase.executed]
      exact hbase.responds)
  unfold McMini.returnToDepth
  simp only [run_bind, run_get, hrestore]
  rw [if_neg (not_not.mpr rfl)]
  refine hreplay.trans ?_
  rw [List.nil_append, h.mapping, ← hbase.executed]

end Return

/-! ### Explorations -/

/-- A coordinator before its first call. -/
structure Coordinator.Initial (c : Coordinator) : Prop where
  executed : c.executed = []
  trace : c.currentProgramModel.trace = []
  earlier : c.getStateSequence.earlier = []
  settled : c.getStateSequence.Settled
  keyed : ∀ q t, c.currentProgramModel.nextSteps.lookup q = some t → t.executor = q

/-- Two coordinators which nobody can tell apart: the same runners have the same pending
transitions, the same runners are enabled, both are in a deadlock or none is, the objects at
every address have the same states, and every call throws in both or in none. -/
structure Coordinator.Agree (source : ProcessSource) (c c' : Coordinator) : Prop where
  pending : c.currentProgramModel.nextSteps = c'.currentProgramModel.nextSteps
  enabled : c.currentProgramModel.getEnabledRunners = c'.currentProgramModel.getEnabledRunners
  deadlock : c.currentProgramModel.isInDeadlock = c'.currentProgramModel.isInDeadlock
  objects : ∀ handle, c.objectAt handle = c'.objectAt handle
  calls : ∀ call : CoordinatorCall, (call.apply source c).1 = (call.apply source c').1

theorem Coordinator.Agree.refl (source : ProcessSource) (c : Coordinator) : c.Agree source c :=
  ⟨rfl, rfl, rfl, fun _ => rfl, fun _ => rfl⟩

/-- The calls which keep the model a function of the schedule. A runner is executed while
the process is in step with the model: after an exception the exploration goes back first.
Going back leaves at least one transition, unless there is none to begin with, and what it
cuts off has not discovered anything when the schedule was executed. -/
def Undisturbed (source : ProcessSource) (c₀ c : Coordinator) : CoordinatorCall → Prop
  | .executeRunner _ => c.executed.length = c.currentProgramModel.trace.length
  | .returnToDepth n => n ≤ c.currentProgramModel.trace.length ∧
      (n = 0 → c.currentProgramModel.trace = []) ∧
      ∀ pre p post, c.executed = pre ++ p :: post → n ≤ pre.length →
        ¬ Discovers source (explore source c₀ (pre.map .executeRunner)) p

section Explore

variable {source : ProcessSource} {p : RunnerId} {c₀ c c' d : Coordinator} {σ : List RunnerId}

theorem Coordinator.Initial.inStep (h : c.Initial) : InStep source c := by
  refine ⟨?_, ?_, h.settled, h.keyed, ?_⟩
  · rw [h.executed, h.trace]
    rfl
  · rw [h.earlier, h.trace]
    rfl
  · intro pre p post heq
    rw [h.executed] at heq
    simp at heq

/-- Executing a runner, as a partial function defined where nothing is thrown. -/
def executeStep (source : ProcessSource) (p : RunnerId) (c : Coordinator) : Option Coordinator :=
  match (executeRunner source p).run c with
  | (.ok (), c') => some c'
  | (.error _, _) => none

theorem executeStep_eq_some_iff :
    executeStep source p c = some c' ↔ (executeRunner source p).run c = (.ok (), c') := by
  unfold executeStep
  rcases (executeRunner source p).run c with ⟨_ | _, c''⟩
  · exact ⟨fun h => by simp at h, fun h => by cases (Prod.mk.inj h).1⟩
  · exact ⟨fun h => by rw [Option.some.inj h], fun h => by rw [(Prod.mk.inj h).2]⟩

theorem explore_concat (source : ProcessSource) (c : Coordinator) (history : List CoordinatorCall)
    (call : CoordinatorCall) :
    explore source c (history ++ [call]) = (call.apply source (explore source c history)).2 := by
  simp [explore, List.foldl_append]

/-- What executing a schedule without exceptions reaches. -/
theorem of_runFrom_executeStep (h : c₀.Initial)
    (hrun : runFrom (executeStep source) c₀ σ = some c) :
    InStep source c ∧ c.executed = σ ∧ explore source c₀ (σ.map .executeRunner) = c := by
  refine runFrom_induction
    (P := fun σ c => InStep source c ∧ c.executed = σ ∧
      explore source c₀ (σ.map .executeRunner) = c)
    ⟨h.inStep, h.executed, rfl⟩ ?_ hrun
  intro σ c p c' _ ih hstep
  obtain ⟨hinStep, hexecuted, hexplore⟩ := ih
  have hrun' := executeStep_eq_some_iff.mp hstep
  refine ⟨hinStep.executeRunner hrun', ?_, ?_⟩
  · obtain ⟨contents, t, c₁, next, s', hsource, hcallback, -, -, -, rfl⟩ :=
      executeRunner_eq_ok hrun'
    have hobserves := observing_callback p contents (c.afterProcess p)
    rw [hcallback] at hobserves
    exact hobserves.executed.trans (congrArg (· ++ [p]) hexecuted)
  · rw [List.map_append, List.map_singleton, explore_concat, hexplore]
    exact congrArg Prod.snd hrun'

/-- An execution which throws leaves the trace and the process as they are, except that the
process has executed the runner. -/
theorem executeRunner_error_observes {e : Failure}
    (h : (executeRunner source p).run c = (.error e, c')) : Observes (c.afterProcess p) c' := by
  rw [executeRunner_run] at h
  cases hsource : source c.executed p with
  | error e =>
    rw [hsource] at h
    exact (Prod.mk.inj h).2 ▸ Observes.refl _
  | ok contents =>
    have hobserves := observing_callback p contents (c.afterProcess p)
    rw [hsource] at h
    dsimp only at h
    rcases hcallback : (callback p contents).run (c.afterProcess p) with ⟨_ | t, c₁⟩
    · rw [hcallback] at h hobserves
      exact (Prod.mk.inj h).2 ▸ hobserves
    · rw [hcallback] at h hobserves
      dsimp only at h
      cases hmodel : c₁.currentProgramModel.modelExecutionOf p t with
      | error e =>
        rw [hmodel] at h
        exact (Prod.mk.inj h).2 ▸ hobserves
      | ok program =>
        rw [hmodel] at h
        cases (Prod.mk.inj h).1

/-- Executing the rest of a schedule which discovers nothing extends the coordinator. -/
theorem extends_of_runFrom (h : c₀.Initial) {base : Coordinator} {pre : List RunnerId}
    (hbase : runFrom (executeStep source) c₀ pre = some base) {rest : List RunnerId}
    (hrest : runFrom (executeStep source) base rest = some c)
    (hdiscovers : ∀ is p js, rest = is ++ p :: js →
      ¬ Discovers source (explore source c₀ ((pre ++ is).map .executeRunner)) p) :
    ∃ ts, ts.map (·.executor) = rest ∧ Extends base c ts := by
  induction rest using List.reverseRecOn generalizing c with
  | nil =>
    obtain rfl : base = c := by simpa using hrest
    exact ⟨[], rfl, .refl base⟩
  | append_singleton rest p ih =>
    obtain ⟨c₁, hc₁, hstep⟩ := runFrom_concat_eq_some.mp hrest
    obtain ⟨ts, hts, hextends⟩ := ih hc₁ fun is q js heq =>
      hdiscovers is q (js ++ [p]) (by rw [heq]; simp)
    obtain ⟨hinStep, -, hexplore⟩ :=
      of_runFrom_executeStep h (runFrom_append_eq_some.mpr ⟨base, hbase, hc₁⟩)
    have hnot := hdiscovers rest p [] rfl
    rw [hexplore] at hnot
    obtain ⟨t, ht, hextends'⟩ :=
      hextends.executeRunner hinStep.keyed hnot (executeStep_eq_some_iff.mp hstep)
    exact ⟨ts ++ [t], by simp [hts, ht], hextends'⟩

/-- The coordinator is what executing its schedule from the start gives, where the last
execution may have thrown. -/
def Determined (source : ProcessSource) (c₀ c : Coordinator) : Prop :=
  ∃ d, runFrom (executeStep source) c₀ d.executed = some d ∧
    (c = d ∨ ∃ p e, (executeRunner source p).run d = (.error e, c))

/-- There is only one such coordinator for each schedule. -/
theorem Determined.unique (hc : Determined source c₀ c)
    (hc' : Determined source c₀ c') (heq : c.executed = c'.executed) : c = c' := by
  obtain ⟨d, hd, hcase⟩ := hc
  obtain ⟨d', hd', hcase'⟩ := hc'
  -- a schedule which was executed without an exception cannot throw in the last step
  have mismatch : ∀ {d d' c : Coordinator} {p : RunnerId} {e : Failure},
      runFrom (executeStep source) c₀ d.executed = some d →
      runFrom (executeStep source) c₀ d'.executed = some d' →
      (executeRunner source p).run d' = (.error e, c) → d.executed ≠ c.executed := by
    intro d d' c p e hd hd' herror heq
    have hexecuted : c.executed = d'.executed ++ [p] := (executeRunner_error_observes herror).executed
    rw [heq, hexecuted] at hd
    obtain ⟨d'', hd'', hstep⟩ := runFrom_concat_eq_some.mp hd
    obtain rfl : d' = d'' := Option.some.inj (hd'.symm.trans hd'')
    have hok := executeStep_eq_some_iff.mp hstep
    rw [herror] at hok
    cases (Prod.mk.inj hok).1
  rcases hcase with rfl | ⟨p, e, herror⟩ <;> rcases hcase' with rfl | ⟨p', e', herror'⟩
  · rw [heq] at hd
    exact Option.some.inj (hd.symm.trans hd')
  · exact absurd heq (mismatch hd hd' herror')
  · exact absurd heq.symm (mismatch hd' hd herror)
  · have hexecuted : c.executed = d.executed ++ [p] := (executeRunner_error_observes herror).executed
    have hexecuted' : c'.executed = d'.executed ++ [p'] :=
      (executeRunner_error_observes herror').executed
    rw [hexecuted, hexecuted'] at heq
    obtain ⟨hsame, hp⟩ := List.append_inj' heq rfl
    obtain rfl := List.singleton_inj.mp hp
    rw [hsame] at hd
    obtain rfl : d = d' := Option.some.inj (hd.symm.trans hd')
    rw [herror] at herror'
    exact (Prod.mk.inj herror').2

/-- Undisturbed calls keep the model a function of the schedule. -/
theorem Determined.apply (h : c₀.Initial) (hc : Determined source c₀ c) {call : CoordinatorCall}
    (hcall : Undisturbed source c₀ c call) : Determined source c₀ (call.apply source c).2 := by
  obtain ⟨d, hd, hcase⟩ := hc
  obtain ⟨hinStep, -, hexplore⟩ := of_runFrom_executeStep h hd
  have hlength : d.executed.length = d.currentProgramModel.trace.length := by
    rw [hinStep.executed, List.length_map]
  cases call with
  | executeRunner p =>
    -- no exception is pending
    obtain rfl : c = d := by
      refine hcase.resolve_right ?_
      rintro ⟨p', e, herror⟩
      have hobserves := executeRunner_error_observes herror
      have hlong : c.executed.length = d.executed.length + 1 := by
        rw [hobserves.executed]
        simp [Coordinator.afterProcess]
      have htrace : c.currentProgramModel.trace = d.currentProgramModel.trace := hobserves.trace
      have hshort : c.executed.length = c.currentProgramModel.trace.length := hcall
      rw [htrace] at hshort
      omega
    rcases hrun : (executeRunner source p).run c with ⟨e | _, c'⟩
    · have hsnd : (CoordinatorCall.executeRunner p).apply source c = (.error e, c') := hrun
      rw [hsnd]
      exact ⟨c, hd, .inr ⟨p, e, hrun⟩⟩
    · have hstep := executeStep_eq_some_iff.mpr hrun
      have hrun' := runFrom_concat_eq_some.mpr ⟨c, hd, hstep⟩
      have hexecuted := (of_runFrom_executeStep h hrun').2.1
      have hsnd : (CoordinatorCall.executeRunner p).apply source c = (.ok (), c') := hrun
      rw [hsnd]
      exact ⟨c', hexecuted ▸ hrun', .inl rfl⟩
  | returnToDepth n =>
    obtain ⟨hn, hzero, hdiscovers⟩ := hcall
    -- the process of an execution which threw is given up
    have hsame : (returnToDepth source n).run c = (returnToDepth source n).run d ∧
        d.currentProgramModel.trace = c.currentProgramModel.trace ∧ d.executed <+: c.executed := by
      rcases hcase with rfl | ⟨p, e, herror⟩
      · exact ⟨rfl, rfl, List.prefix_rfl⟩
      · have hobserves := executeRunner_error_observes herror
        have hexecuted : c.executed = d.executed ++ [p] := hobserves.executed
        have htrace : c.currentProgramModel.trace = d.currentProgramModel.trace := hobserves.trace
        have hnot := hdiscovers d.executed p [] hexecuted (by rw [hlength, ← htrace]; exact hn)
        rw [hexplore] at hnot
        obtain rfl := executeRunner_eq_error hnot herror
        exact ⟨rfl, rfl, List.prefix_append _ _⟩
    obtain ⟨hrun, htrace, post, hpost⟩ := hsame
    rw [← htrace] at hn hzero
    have hd' := hd
    rw [← List.take_append_drop n d.executed] at hd'
    obtain ⟨base, hbase, hrest⟩ := runFrom_append_eq_some.mp hd'
    obtain ⟨hbaseStep, hbaseExecuted, -⟩ := of_runFrom_executeStep h hbase
    have hdepth : base.currentProgramModel.trace.length = n := by
      have hlen := congrArg List.length hbaseExecuted
      rw [hbaseStep.executed, List.length_map, List.length_take] at hlen
      omega
    obtain ⟨ts, hts, hextends⟩ := extends_of_runFrom h hbase hrest fun is p js heq => by
      refine hdiscovers _ p (js ++ post) ?_ ?_
      · rw [← hpost]
        conv_lhs => rw [← List.take_append_drop n d.executed, heq]
        simp
      · rw [List.length_append, List.length_take]
        omega
    have hreturn := hextends.returnToDepth hbaseStep hinStep
      (fun hnil => by
        rw [hnil, List.map_nil] at hts
        rw [← hts] at hrest
        exact Option.some.inj hrest)
      (by
        rw [hdepth]
        exact (Nat.eq_zero_or_pos n).symm.imp_right hzero)
    rw [hdepth] at hreturn
    have hsnd : ((CoordinatorCall.returnToDepth n).apply source c).2 = base :=
      congrArg Prod.snd (hrun.trans hreturn)
    rw [hsnd]
    exact ⟨base, hbaseExecuted ▸ hbase, .inl rfl⟩

theorem determined_explore (h : c₀.Initial) {history : List CoordinatorCall}
    (hhistory : ∀ pre call, pre ++ [call] <+: history →
      Undisturbed source c₀ (explore source c₀ pre) call) :
    Determined source c₀ (explore source c₀ history) := by
  induction history using List.reverseRecOn with
  | nil => exact ⟨c₀, by rw [h.executed]; rfl, .inl rfl⟩
  | append_singleton history call ih =>
    obtain ⟨hbefore, hcall⟩ := forall_prefix_concat.mp hhistory
    rw [explore_concat]
    exact (ih hbefore).apply h hcall

/-- **The model is a function of the schedule.** Two explorations from the same initial
coordinator, whose calls are undisturbed and which end with the same schedule, reach
coordinators which agree. -/
theorem agree_of_executed_eq (h : c₀.Initial) {history history' : List CoordinatorCall}
    (hhistory : ∀ pre call, pre ++ [call] <+: history →
      Undisturbed source c₀ (explore source c₀ pre) call)
    (hhistory' : ∀ pre call, pre ++ [call] <+: history' →
      Undisturbed source c₀ (explore source c₀ pre) call)
    (heq : (explore source c₀ history).executed = (explore source c₀ history').executed) :
    (explore source c₀ history).Agree source (explore source c₀ history') := by
  rw [(determined_explore h hhistory).unique (determined_explore h hhistory') heq]
  exact .refl source _

end Explore

/-- A coordinator whose target is at `main`. -/
def Coordinator.atMain : Coordinator := ⟨.startingFromMain, ∅, []⟩

/-- An exploration may begin with any state, in which each runner has at most one transition
pending. -/
theorem Coordinator.initial_ofState (d : DetachedState)
    {initialFirstSteps : Finmap fun _ : RunnerId => Transition}
    (hkeyed : ∀ q t, initialFirstSteps.lookup q = some t → t.executor = q)
    (mapping : Finmap fun _ : Addr => ObjId) :
    (⟨.ofState d initialFirstSteps, mapping, []⟩ : Coordinator).Initial :=
  ⟨rfl, rfl, StateSequence.ofDetachedState_earlier d, StateSequence.settled_ofDetachedState d,
    hkeyed⟩

/-- At `main` only the main thread is known, which is about to start. -/
theorem Coordinator.pending_atMain {q : RunnerId} {t : Transition}
    (h : Coordinator.atMain.currentProgramModel.nextSteps.lookup q = some t) :
    ridMainThread = q ∧ ⟨ridMainThread, .threadStart⟩ = t := by
  have hlookup : (Finmap.insert ridMainThread ⟨ridMainThread, .threadStart⟩ ∅ :
      Finmap fun _ : RunnerId => Transition).lookup q = some t := h
  rw [lookup_insert] at hlookup
  split_ifs at hlookup with hq
  · exact ⟨hq, Option.some.inj hlookup⟩
  · simp at hlookup

theorem Coordinator.initial_atMain : Coordinator.atMain.Initial := by
  refine Coordinator.initial_ofState _ (fun q t h => ?_) _
  obtain ⟨rfl, rfl⟩ := Coordinator.pending_atMain h
  rfl

theorem isSome_insert_zero :
    ((InjectiveFunction.empty (α := RunnerId) (β := ObjId)).insert 0 0).isSome := by decide

theorem isSome_insert_one :
    ((((InjectiveFunction.empty (α := RunnerId) (β := ObjId)).insert 0 0).get
      isSome_insert_zero).insert 1 1).isSome := by decide

/-- Two running threads and two other objects. -/
def DetachedState.twoThreads (o o' : VisibleObjectState) : DetachedState where
  visibleObjects := [.thread ⟨.running⟩, .thread ⟨.running⟩, o, o']
  runnerToObjMap :=
    (((InjectiveFunction.empty.insert 0 0).get isSome_insert_zero).insert 1 1).get isSome_insert_one
  keys_eq_range := by decide
  lookup_lt := by
    intro q i h
    have h' : (if 1 = q then some 1 else if 0 = q then some 0 else none) = some i := by
      rw [← h, ← Finmap.lookup_empty (β := fun _ => ObjId) q, ← lookup_insert ∅ 0 q 0, ← lookup_insert]
      rfl
    split_ifs at h'
    · rw [← Option.some.inj h']
      show 1 < 4
      decide
    · rw [← Option.some.inj h']
      show 0 < 4
      decide

/-- An exploration may begin with what two threads are about to do. -/
theorem Coordinator.initial_twoThreads (d : DetachedState) {t u : Transition} (ht : t.executor = 0)
    (hu : u.executor = 1) (mapping : Finmap fun _ : Addr => ObjId) :
    (⟨.ofState d ((Finmap.singleton 0 t).insert 1 u), mapping, []⟩ : Coordinator).Initial := by
  refine Coordinator.initial_ofState d (fun q v h => ?_) mapping
  rw [lookup_insert] at h
  split_ifs at h with hone
  · rw [← Option.some.inj h, hu, hone]
  · by_cases hzero : q = 0
    · subst hzero
      rw [Finmap.lookup_singleton_eq] at h
      rw [← Option.some.inj h, ht]
    · rw [Finmap.lookup_eq_none.mpr (by simpa using hzero)] at h
      cases h

/-- A target whose main thread exits as soon as it has started. -/
def exiting : ProcessSource := fun _ _ => .ok .threadExit

/-- A target whose main thread aborts. -/
private def aborting : ProcessSource := fun _ _ => .ok .processAbort

/-- Going back to the beginning does not restore what the main thread was about to do. -/
theorem not_agree_after_returnToDepth :
    ¬ ∀ (source : ProcessSource) (c₀ : Coordinator) (history history' : List CoordinatorCall),
      c₀.Initial →
      (explore source c₀ history).executed = (explore source c₀ history').executed →
      (explore source c₀ history).Agree source (explore source c₀ history') := by
  intro h
  have hagree := h aborting .atMain [] [.executeRunner 0, .returnToDepth 0]
    Coordinator.initial_atMain rfl
  have hpending : (explore aborting .atMain []).currentProgramModel.nextSteps.lookup 0 =
      (explore aborting .atMain [.executeRunner 0, .returnToDepth 0]).currentProgramModel.nextSteps.lookup
        0 := by
    rw [hagree.pending]
  exact absurd hpending (by decide)

/-- Executing the main thread twice and going back one step is executing it once. -/
theorem agree_after_returnToDepth :
    (explore aborting .atMain [.executeRunner 0, .executeRunner 0, .returnToDepth 1]).Agree aborting
      (explore aborting .atMain [.executeRunner 0]) := by
  have hnone : ∀ c p, ¬ Discovers aborting c p := by
    rintro c p ⟨contents, a, hcontents, hobserved, -⟩
    obtain rfl := Except.ok.inj hcontents
    cases hobserved
  have hone : ∀ pre call, pre ++ [call] <+: [] ++ [CoordinatorCall.executeRunner 0] →
      Undisturbed aborting .atMain (explore aborting .atMain pre) call :=
    forall_prefix_concat.mpr ⟨fun pre call hpre => by simp at hpre, rfl⟩
  have hthree : ∀ pre call, pre ++ [call] <+: ([] ++ [CoordinatorCall.executeRunner 0] ++
      [.executeRunner 0]) ++ [.returnToDepth 1] →
      Undisturbed aborting .atMain (explore aborting .atMain pre) call :=
    forall_prefix_concat.mpr ⟨forall_prefix_concat.mpr ⟨hone, rfl⟩, by decide, by decide,
      fun _ p _ _ _ => hnone _ p⟩
  exact agree_of_executed_eq Coordinator.initial_atMain hthree hone rfl

end McMini
