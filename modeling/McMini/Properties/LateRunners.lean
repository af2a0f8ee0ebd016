import McMini.Properties.BacktrackRule
import McMini.Properties.Depths

/-!
# Runners which become known late

The update of the backtrack sets never compares the pending transition of a runner with what was on
the trace when the runner became known. With the default relations nothing is missed by that
(`backtracksFor_of_lastRaceAt`): what is pending for such a runner is its start, which depends on
all but the creations and the joins of other threads. Hence when its last race is at `i`, and it
was not known after that transition, the transition at `i + 1` creates or joins a thread. This
thread is not running, and what is pending for it, the start or the end, races at `i` too. As it was
known and could not be executed at `i`, all enabled runners have been made backtrack points there.

The argument needs what the target promises: `pthread_create` never returns the handle of a thread
which is running, and a thread which is not running is at its beginning or at its end
(`KeepsPromises`).
-/

namespace McMini

open Search Foundation

/-! ### What the model keeps -/

/-- A thread which runs goes on running, unless it is the executor and exits. -/
theorem Step.running {s s' : State} {t : Transition} (h : Step s t s') {q : RunnerId}
    (hq : s.Active q) : s'.Active q ∨ (t.executor = q ∧ t.op.exits = true) := by
  cases h with
  | @threadCreate p target th ha ht =>
    obtain ⟨rfl, hq'⟩ | ⟨-, hq'⟩ := State.HasThread.setThread hq ht ⟨.running⟩
    · exact .inl hq'
    · exact .inl hq'
  | threadExit ha hmain | processExit ha =>
    obtain ⟨rfl, -⟩ | ⟨-, hq'⟩ := State.HasThread.setThread hq ha ⟨.exited⟩
    · exact .inr ⟨rfl, rfl⟩
    · exact .inl hq'
  | mutexInit ha hd | mutexLock ha hd hfree | mutexUnlock ha hd hheld
  | conditionVariableInit ha hd | conditionVariableSignal ha hd hu hw
  | conditionVariableBroadcast ha hd hu hw | conditionVariableDestroy ha hd hu hw
  | semInit ha hd | semPost ha hd | semWait ha hd hblock =>
    exact .inl (State.HasThread.setObjectState hq hd (by simp))
  | conditionVariableEnqueueThread ha hcv hm hheld =>
    exact .inl ((State.HasThread.setObjectState hq hcv (by simp)).setObjectState
      (State.setObjectState_of_type_ne hcv hm (by simp)) (by simp))
  | conditionVariableWait ha hcv hm hu hexit hloc hfree hnew =>
    exact .inl ((State.HasThread.setObjectState hq hm (by simp)).setObjectState
      (State.setObjectState_of_type_ne hm hcv (by simp)) (by simp))
  | conditionVariableSignalLost ha hcv hu hw | conditionVariableBroadcastLost ha hcv hu hw
  | threadStart ha | threadJoin ha ht | processAbort ha => exact .inl hq

namespace Program

variable {p p' : Program} {i n r₀ : ℕ} {q : RunnerId} {t : Transition} {runners runners' : List ℕ}

/-- A runner which has become known in the course of the search begins with its start. -/
def Discovered (r₀ : ℕ) (p : Program) : Prop :=
  ∀ q, r₀ ≤ q → q < p.runnerCount → p.pendingAtDepth 0 q = some ⟨q, .threadStart⟩

/-- A thread which runs at a depth runs at the next one, unless it exits in between. -/
def RunsOn (p : Program) : Prop :=
  ∀ i t u u', p.trace[i]? = some t → p.stateSeq.stateAtDepth i = some u →
    p.stateSeq.stateAtDepth (i + 1) = some u' → ∀ q, u.Active q →
      u'.Active q ∨ (t.executor = q ∧ t.op.exits = true)

/-- A runner which is enabled at a depth runs there. -/
theorem Layered.active_of_enabledAtDepth (h : p.Layered r₀ runners) (henabled : p.EnabledAtDepth i q) :
    ∃ u, p.stateSeq.stateAtDepth i = some u ∧ u.Active q := by
  obtain ⟨t, u, ht, hu, henabled⟩ := henabled
  obtain ⟨th, hth, hrunning⟩ := hasThread_of_isEnabledIn henabled
  rw [(h.pending_lt ht).1, hrunning rfl] at hth
  exact ⟨u, hu, hth⟩

/-- What was pending first is remembered when no runner becomes known. -/
theorem Discovered.of_keeps (h : p.Discovered r₀) (hkeeps : p.Keeps n p')
    (hcount : p'.runnerCount = p.runnerCount) : p'.Discovered r₀ := by
  intro q hq hlt
  rw [hcount] at hlt
  rw [hkeeps.pending 0 (Nat.zero_le n) q hlt]
  exact h q hq hlt

/-- Between depths which are remembered, the threads run on as before. -/
theorem RunsOn.of_keeps (hruns : p.RunsOn) (h : p.Layered r₀ runners) (h' : p'.Layered r₀ runners')
    (hkeeps : p.Keeps n p') (hn : n ≤ p.trace.length)
    (hrunners : ∀ j < n, runners'[j]? = runners[j]?) (hi : i < n) {u u' : State}
    (ht : p'.trace[i]? = some t) (hu : p'.stateSeq.stateAtDepth i = some u)
    (hu' : p'.stateSeq.stateAtDepth (i + 1) = some u') (hq : u.Active q) :
    u'.Active q ∨ (t.executor = q ∧ t.op.exits = true) := by
  obtain ⟨v, hv⟩ := h.exists_stateAtDepth (hi.le.trans hn)
  obtain ⟨v', hv'⟩ := h.exists_stateAtDepth (Nat.succ_le_of_lt (hi.trans_le hn))
  obtain ⟨w, hw, hext⟩ := hkeeps.states i hi.le v hv
  obtain rfl : u = w := Option.some.inj (hu.symm.trans hw)
  obtain ⟨w', hw', hext'⟩ := hkeeps.states (i + 1) hi v' hv'
  obtain rfl : u' = w' := Option.some.inj (hu'.symm.trans hw')
  have ht' : p.trace[i]? = some t := by
    rw [← List.getElem?_take_of_lt hi, ← hkeeps.trace, List.getElem?_take_of_lt hi, ht]
  -- what runs is not among the embryos which have been added
  have hactive : v.Active q :=
    h.hasThread_of_extendedBy h'.toDeep (hrunners i hi) hv hu hext hq (by decide)
  exact (hruns i t v v' ht' hv hv' q hactive).imp_left hext'.hasThread

/-- Executing a transition adds a depth, to which the threads run on. -/
theorem RunsOn.execute (hruns : p.RunsOn) (h : p.Layered r₀ runners)
    (hmodel : p.modelExecutionOf q t = .ok p') : p'.RunsOn := by
  obtain ⟨h', hkeeps, -, next, -, htrace⟩ := h.execute hmodel
  obtain ⟨-, next', s', -, hfollow, rfl⟩ := modelExecutionOf_eq_ok.mp hmodel
  obtain rfl : next' = next := List.singleton_inj.mp (List.append_cancel_left htrace)
  obtain ⟨layers, hlayers, -⟩ := h.layers
  have hrunners : ∀ j < p.trace.length + 1, (runners ++ [s'.runnerToObjMap.size])[j]? = runners[j]? := by
    intro j hj
    exact List.getElem?_append_left (h.length_runners ▸ hj)
  intro i u v v' hu hv hv' r hr
  rcases Nat.lt_or_ge i p.trace.length with hi | hi
  · exact hruns.of_keeps h h' hkeeps le_rfl (fun j hj => hrunners j (by omega)) hi hu hv hv' hr
  · obtain rfl : i = p.trace.length := by
      have hlt : i < (p.trace ++ [next']).length := (List.getElem?_eq_some_iff.mp hu).1
      rw [List.length_append, List.length_singleton] at hlt
      omega
    have hu' : (p.trace ++ [next'])[p.trace.length]? = some u := hu
    rw [List.getElem?_concat_length] at hu'
    obtain rfl := Option.some.inj hu'
    obtain ⟨w, hfire, hext, -⟩ := hlayers.fire_of_follow hfollow
    obtain ⟨w', hw', hext'⟩ := hkeeps.states _ le_rfl _ h.stateAtDepth_length
    obtain rfl : v = w' := Option.some.inj (hv.symm.trans hw')
    have hlast := h'.stateAtDepth_length
    have hlength : (p.trace ++ [next']).length = p.trace.length + 1 := by simp
    rw [show (⟨s', p.trace ++ [next'], p.nextSteps.insert q t⟩ : Program).trace.length =
      p.trace.length + 1 from hlength] at hlast
    obtain rfl := Option.some.inj (hv'.symm.trans hlast)
    have hactive : p.stateSeq.toState.Active r := h.hasThread_of_extendedBy h'.toDeep
      (hrunners _ (Nat.lt_succ_self _)) h.stateAtDepth_length hv hext' hr (by decide)
    exact ((fire_eq_some_iff_step.mp hfire).running hactive).imp_left hext.hasThread

end Program

/-- The model of the coordinator has grown from the one at the start of the search, in which there
were `r₀` runners. -/
structure Coordinator.Grown (r₀ : ℕ) (c : Coordinator) : Prop where
  layered : ∃ runners, c.currentProgramModel.Layered r₀ runners
  discovered : c.currentProgramModel.Discovered r₀
  runsOn : c.currentProgramModel.RunsOn

section Calls

variable {source : ProcessSource} {config : Configuration} {callbacks : Finset Callback}
  {c c' : Coordinator} {s : Search} {r₀ n : ℕ} {p : RunnerId}

/-- What a callback adds has grown, too. -/
theorem Adds.grown (hadds : Adds c c') (h : c.Grown r₀) : c'.Grown r₀ := by
  obtain ⟨runners, hlayered⟩ := h.layered
  obtain ⟨hlayered', hkeeps⟩ := hadds.layered hlayered
  have htrace : c'.currentProgramModel.trace = c.currentProgramModel.trace := hadds.observes.trace
  refine ⟨⟨runners, hlayered'⟩, fun q hq hlt => ?_, fun i t u u' ht hu hu' q hq => ?_⟩
  · by_cases hknown : q < c.currentProgramModel.runnerCount
    · rw [hkeeps.pending 0 (Nat.zero_le _) q hknown]
      exact h.discovered q hq hknown
    cases hadds with
    | nothing => exact absurd hlt hknown
    | object hnew => exact absurd hlt hknown
    | @runner handle hnew =>
      have hle := hlt.trans_le ((Adds.runner hnew).runnerCount_le hlayered)
      obtain rfl : q = c.currentProgramModel.runnerCount :=
        le_antisymm (Nat.le_of_lt_succ hle) (not_lt.mp hknown)
      obtain ⟨layers, hlayers, -⟩ := hlayered.layers
      obtain ⟨-, -, hresult⟩ := hlayers.addRunner
      have hmodel := observeRunner_currentProgramModel (f := fun id => ⟨id, .threadStart⟩) hnew hresult
      have hpending : (c.currentProgramModel.nextSteps.insert c.currentProgramModel.runnerCount
          ⟨c.currentProgramModel.runnerCount, .threadStart⟩).lookup c.currentProgramModel.runnerCount =
            some ⟨c.currentProgramModel.runnerCount, .threadStart⟩ := by
        rw [lookup_insert, if_pos rfl]
      -- the new runner has executed nothing
      have hnone : c.currentProgramModel.trace.find?
          (·.executor == c.currentProgramModel.runnerCount) = none := by
        refine List.find?_eq_none.mpr fun u hu hexec => ?_
        obtain ⟨j, hj⟩ := List.mem_iff_getElem?.mp hu
        have hlt' := (hlayered.pending_lt (Program.pendingAtDepth_executor hj)).2
        have hexec' : u.executor = c.currentProgramModel.runnerCount := by simpa using hexec
        exact absurd hexec' hlt'.ne
      rw [Program.pendingAtDepth, htrace, List.drop_zero, hnone, Option.none_or, hmodel]
      exact hpending
  · have hi := (List.getElem?_eq_some_iff.mp ht).1
    have hi' : i < c.currentProgramModel.trace.length := htrace ▸ hi
    exact h.runsOn.of_keeps hlayered hlayered' hkeeps le_rfl (fun _ _ => rfl) hi' ht hu hu' hq

theorem Coordinator.Grown.executeRunner (h : c.Grown r₀)
    (hrun : (executeRunner source p).run c = (.ok (), c')) : c'.Grown r₀ := by
  obtain ⟨contents, u, c₁, next, s', -, hcallback, hu, hnext, hfollow, rfl⟩ :=
    executeRunner_eq_ok hrun
  have hprocess : (c.afterProcess p).Grown r₀ := ⟨h.layered, h.discovered, h.runsOn⟩
  have hadds := callback_adds p contents (c.afterProcess p)
  rw [hcallback] at hadds
  have hadded := hadds.grown hprocess
  obtain ⟨runners, hlayered⟩ := hadded.layered
  have hmodel := modelExecutionOf_eq_ok.mpr ⟨hu, next, s', hnext, hfollow, rfl⟩
  obtain ⟨hlayered', hkeeps, hcount, -⟩ := hlayered.execute hmodel
  exact ⟨⟨_, hlayered'⟩, hadded.discovered.of_keeps hkeeps hcount,
    hadded.runsOn.execute hlayered hmodel⟩

theorem Coordinator.Grown.returnToDepth (h : c.Grown r₀) (hn : 1 ≤ n)
    (hrun : (returnToDepth source n).run c = (.ok (), c')) : c'.Grown r₀ := by
  obtain ⟨runners, hlayered⟩ := h.layered
  obtain ⟨hrestore, hle⟩ := returnToDepth_restores hrun
  obtain ⟨hlayered', hkeeps, -, htrace, hcount⟩ := hlayered.restore hn hle hrestore
  refine ⟨⟨_, hlayered'⟩, h.discovered.of_keeps hkeeps hcount, fun i t u u' ht hu hu' q hq => ?_⟩
  have hi : i < n := by
    have hlt := (List.getElem?_eq_some_iff.mp ht).1
    rw [htrace, List.length_take] at hlt
    omega
  refine h.runsOn.of_keeps hlayered hlayered' hkeeps hle (fun j hj => ?_) hi ht hu hu' hq
  exact List.getElem?_take_of_lt (by omega)

/-- **The model of the search has grown from the first one.** -/
theorem grown_of_reachable (hc : c.Initial) (h : Search.Reachable source config callbacks c s) :
    s.coordinator.Grown c.currentProgramModel.runnerCount := by
  obtain ⟨s₀, hstart, hrun⟩ := h
  induction hrun with
  | refl =>
    obtain ⟨enabled, henabled, hs₀⟩ := bind_eq_ok.mp hstart
    obtain rfl := Except.ok.inj hs₀
    refine ⟨⟨_, hc.layered henabled⟩, fun q hq hlt => absurd hlt (not_lt.mpr hq),
      fun i t u u' ht => ?_⟩
    have htrace : c.currentProgramModel.trace = [] := hc.trace
    rw [htrace] at ht
    cases ht
  | tail hbefore hstep ih =>
    have hkept := rootKept_of_reachable ⟨s₀, hstart, hbefore⟩
    cases hstep.move with
    | explore _ _ _ _ _ _ hrun =>
      exact ih.executeRunner (continueDporByExpandingTraceWith_eq_ok hrun).1
    | finish _ _ _ hcoordinator => exact hcoordinator.symm ▸ ih
    | goBack init back _ hpop hrun _ =>
      exact ih.returnToDepth (List.length_pos_iff.mpr (hkept.searched.ne_nil hpop)) hrun
    | follow _ _ _ _ _ _ _ hrun =>
      exact ih.executeRunner (continueDporByExpandingTraceWith_eq_ok hrun).1

/-! ### What the clocks are -/

/-- The runners begin with empty clocks, and a transition changes the clock of its executor only. -/
structure ClocksInherited (stack : List StackItem) : Prop where
  first : ∀ item, stack[0]? = some item → ∀ (q : RunnerId) (runner : RunnerItem),
    item.perRunnerClocks[q]? = some runner → runner.cv = .empty
  next : ∀ (k : ℕ) (item item' : StackItem) (t : Transition), stack[k]? = some item →
    stack[k + 1]? = some item' → item.outTransition = .valid t → ∀ q : RunnerId, t.executor ≠ q →
      item'.perRunnerClocks[q]? = item.perRunnerClocks[q]?

variable {stack stack' init : List StackItem} {back : StackItem} {q : RunnerId}

namespace ClocksInherited

theorem of_map_eq (h : ClocksInherited stack)
    (hmap : stack'.map (·.withoutBacktrackSet) = stack.map (·.withoutBacktrackSet)) :
    ClocksInherited stack' := by
  have hold : ∀ {k : ℕ} {item' : StackItem}, stack'[k]? = some item' → ∃ item, stack[k]? = some item ∧
      item'.perRunnerClocks = item.perRunnerClocks ∧ item'.outTransition = item.outTransition := by
    intro k item' hitem'
    have hget := congrArg (·[k]?) hmap
    simp only [List.getElem?_map, hitem', Option.map_some] at hget
    obtain ⟨item, hitem, hsame⟩ := Option.map_eq_some_iff.mp hget.symm
    rw [eq_of_withoutBacktrackSet hsame.symm]
    exact ⟨item, hitem, rfl, rfl⟩
  refine ⟨fun item' hitem' q runner hrunner => ?_, fun k item item' t hitem hitem' ht q hq => ?_⟩
  · obtain ⟨item, hitem, hclocks, -⟩ := hold hitem'
    exact h.first item hitem q runner (hclocks ▸ hrunner)
  · obtain ⟨old, hitem, hclocks, hout⟩ := hold hitem
    obtain ⟨old', hitem', hclocks', -⟩ := hold hitem'
    rw [hclocks, hclocks']
    exact h.next k old old' t hitem hitem' (hout ▸ ht) q hq

theorem replace {back' : StackItem} (h : ClocksInherited stack) (hpre : init ++ [back] <+: stack)
    (hclocks : back'.clocks = back.clocks) : ClocksInherited (init ++ [back']) := by
  have hsame : back'.perRunnerClocks = back.perRunnerClocks := congrArg Prod.snd hclocks
  refine ⟨fun item hitem q runner hrunner => ?_, fun k item item' t hitem hitem' ht q hq => ?_⟩
  · rcases getElem?_of_replaced hpre hitem with ⟨-, hold⟩ | ⟨-, rfl, hold⟩
    · exact h.first item hold q runner hrunner
    · exact h.first back hold q runner (hsame ▸ hrunner)
  · have hk : k < init.length := by
      have hlt := (List.getElem?_eq_some_iff.mp hitem').1
      rw [List.length_append, List.length_singleton] at hlt
      omega
    obtain ⟨-, hold⟩ := (getElem?_of_replaced hpre hitem).resolve_right fun h => hk.ne h.1
    rcases getElem?_of_replaced hpre hitem' with ⟨-, hold'⟩ | ⟨-, rfl, hold'⟩
    · exact h.next k item item' t hold hold' ht q hq
    · rw [hsame]
      exact h.next k item back t hold hold' ht q hq

theorem expand (h : ClocksInherited stack)
    (hrun : (continueDporByExpandingTraceWith source config p stack).run c = (.ok stack', c')) :
    ClocksInherited stack' := by
  obtain ⟨-, grown, hgrow, hupdate⟩ := continueDporByExpandingTraceWith_eq_ok hrun
  refine of_map_eq ?_ (dynamicallyUpdateBacktrackSets_map hupdate)
  obtain ⟨init, s_n, t_n, cv, clocks, enabled, asleep, rfl, -, -, -, hclocks, -, -, rfl⟩ :=
    growStackAfterRunning_eq_ok hgrow
  have hleaving : ClocksInherited (init ++ [s_n.leaving t_n]) := h.replace List.prefix_rfl rfl
  have hpush : ∀ new, init ++ [s_n.leaving t_n, new] = (init ++ [s_n.leaving t_n]) ++ [new] := by simp
  have hlength : (init ++ [s_n.leaving t_n]).length = init.length + 1 := by simp
  rw [hpush]
  refine ⟨fun item hitem => ?_, fun k item item' t hitem hitem' ht q hq => ?_⟩
  · rw [List.getElem?_append_left (by omega)] at hitem
    exact hleaving.first item hitem
  · have hk : k < init.length + 1 := by
      have hlt := (List.getElem?_eq_some_iff.mp hitem').1
      rw [List.length_append, List.length_singleton, hlength] at hlt
      omega
    rw [List.getElem?_append_left (hlength ▸ hk)] at hitem
    rcases Nat.lt_succ_iff_lt_or_eq.mp hk with hlt | rfl
    · rw [List.getElem?_append_left (by omega)] at hitem'
      exact hleaving.next k item item' t hitem hitem' ht q hq
    · rw [List.getElem?_concat_length] at hitem
      rw [← hlength, List.getElem?_concat_length] at hitem'
      obtain rfl := Option.some.inj hitem
      obtain rfl := Option.some.inj hitem'
      obtain rfl : t_n = t := TransitionPointer.valid.inj ht
      exact (withClockVector_eq_ok hclocks).2 q hq

end ClocksInherited

theorem clocksInherited_of_reachable (h : Search.Reachable source config callbacks c s) :
    ClocksInherited s.stack := by
  have hnil : ClocksInherited [] := by
    refine ⟨fun item hitem => ?_, fun k item item' t hitem => ?_⟩
    · cases hitem
    · cases hitem
  refine clocks_of_reachable (fun enabled => ⟨fun item hitem q runner hrunner => ?_,
    fun k item item' t _ hitem' => ?_⟩) hnil ClocksInherited.replace ClocksInherited.expand h
  · obtain rfl := Option.some.inj hitem
    have hrunner' : (Vector.replicate maxTotalThreadsInProgram ({} : RunnerItem))[q]? = some runner :=
      hrunner
    obtain ⟨hlt, hget⟩ := Vector.getElem?_eq_some_iff.mp hrunner'
    rw [← hget, Vector.getElem_replicate]
  · have hlt : k + 1 < 1 := (List.getElem?_eq_some_iff.mp hitem').1
    omega

/-- The clock of a runner which has executed nothing is empty. -/
theorem ClocksInherited.eq_empty (h : ClocksInherited stack) {tr : List Transition}
    (hout : ∀ (k : ℕ) (item : StackItem) (t : Transition), stack[k]? = some item → tr[k]? = some t →
      item.outTransition = .valid t) (hlength : stack.length = tr.length + 1)
    (hidle : ∀ t ∈ tr, t.executor ≠ q) {k : ℕ} {item : StackItem} {runner : RunnerItem}
    (hitem : stack[k]? = some item) (hrunner : item.perRunnerClocks[q]? = some runner) :
    runner.cv = .empty := by
  induction k generalizing item with
  | zero => exact h.first item hitem q runner hrunner
  | succ k ih =>
    have hlt := (List.getElem?_eq_some_iff.mp hitem).1
    have hbelow : stack[k]? = some stack[k] := List.getElem?_eq_getElem (Nat.lt_of_succ_lt hlt)
    have ht : tr[k]? = some tr[k] := List.getElem?_eq_getElem (by omega)
    have hout' := hout k _ _ hbelow ht
    refine ih hbelow ?_
    rw [← h.next k _ item _ hbelow hitem hout' q (hidle _ (List.getElem_mem _)), hrunner]

end Calls

/-! ### What the target promises -/

/-- What the model shows of a target which keeps its promises. -/
structure Program.KeepsPromises (p : Program) : Prop where
  /-- `pthread_create` does not return the handle of a thread which is running. -/
  created : ∀ q x, p.nextSteps.lookup q = some ⟨q, .threadCreate x⟩ → ¬ p.stateSeq.toState.Active x
  /-- A thread which is not running has not begun yet, or is at its end for good. -/
  idle : ∀ x th, p.stateSeq.toState.HasThread x th → ¬ p.stateSeq.toState.Active x →
    ∃ u, p.nextSteps.lookup x = some u ∧ (u.op = .threadStart ∨ u.op.exits = true)

/-- The thread which an enabled transition creates or joins is not running. -/
theorem Program.KeepsPromises.target {p : Program} (h : p.KeepsPromises) {q x : RunnerId}
    {u : Transition} (hu : p.nextSteps.lookup q = some u) (hexecutor : u.executor = q)
    (henabled : u.isEnabledIn p.stateSeq.toState = .ok true) (hx : u.op.target = some x) :
    ¬ p.stateSeq.toState.Active x ∧
      ∃ v, p.nextSteps.lookup x = some v ∧ (v.op = .threadStart ∨ v.op.exits = true) := by
  obtain ⟨s', hfire⟩ := enabled_iff.mp (isEnabledIn_eq_ok_true.mp henabled)
  have hstep := fire_eq_some_iff_step.mp hfire
  obtain ⟨i, hi, htype⟩ := hstep.wellTyped.target hx
  obtain ⟨o, ho, hthread⟩ := Option.map_eq_some_iff.mp htype
  obtain ⟨th, rfl⟩ := VisibleObjectState.objectType_eq_thread.mp hthread
  have hth : p.stateSeq.toState.HasThread x th := ⟨i, hi, ho⟩
  have hidle : ¬ p.stateSeq.toState.Active x := by
    obtain ⟨executor, op⟩ := u
    rcases Operation.target_eq_some.mp hx with hop | hop
    · obtain rfl : executor = q := hexecutor
      obtain rfl : op = .threadCreate x := hop
      exact h.created _ x hu
    · obtain rfl : op = .threadJoin x := hop
      cases hstep with
      | threadJoin _ hexited =>
        intro hactive
        cases hexited.unique hactive
  exact ⟨hidle, h.idle x th hth hidle⟩

section Histories

variable {hs : List ItemHistory} {hist : ItemHistory} {n : ℕ}

theorem map_modify_model {f : ItemHistory → ItemHistory} (hf : ∀ hist, (f hist).model = hist.model)
    (hs : List ItemHistory) (n : ℕ) :
    (hs.modify n f).map (·.model) = hs.map (·.model) := by
  refine List.ext_getElem? fun i => ?_
  rw [List.getElem?_map, List.getElem?_map, List.getElem?_modify]
  cases hs[i]? with
  | none => rfl
  | some hist =>
    refine congrArg some ?_
    show (if n = i then f hist else hist).model = hist.model
    split_ifs
    · exact hf hist
    · rfl

theorem map_model_expandHistories (hs : List ItemHistory) (t : Transition) (model : Program) :
    (expandHistories hs t model).map (·.model) = hs.map (·.model) ++ [model] := by
  rw [expandHistories, List.map_append, map_modify_model (f := .execute t) fun _ => rfl]
  rfl

/-- The models which the histories remember are models of the search. -/
theorem forall_model_of_traced {source : ProcessSource} {config : Configuration}
    {callbacks : Finset Callback} {c : Coordinator} {s : Search} {P : Program → Prop}
    (hP : ∀ s, Search.Reachable source config callbacks c s → P s.coordinator.currentProgramModel)
    (h : Traced source config callbacks c s hs) : ∀ model ∈ hs.map (·.model), P model := by
  induction h with
  | @start s hstart =>
    intro model hmodel
    obtain rfl := List.mem_singleton.mp hmodel
    obtain ⟨enabled, -, hs₀⟩ := bind_eq_ok.mp hstart
    have hreachable : Search.Reachable source config callbacks c s := ⟨s, hstart, .refl⟩
    obtain rfl := Except.ok.inj hs₀
    exact hP _ hreachable
  | @expand s s' hs t h hstep hexpands ht ih =>
    intro model hmodel
    rw [map_model_expandHistories] at hmodel
    rcases List.mem_append.mp hmodel with hold | hnew
    · exact ih model hold
    · obtain rfl := List.mem_singleton.mp hnew
      exact hP s' (h.expand hstep hexpands ht).reachable
  | back h hstep hphase ih =>
    intro model hmodel
    rw [backHistories, map_modify_model (f := .comeBack _) fun _ => rfl, List.map_take] at hmodel
    exact ih model (List.mem_of_mem_take hmodel)
  | finish _ _ _ _ =>
    intro model hmodel
    cases hmodel

end Histories

/-! ### The default relations -/

section Relations

variable {u t : Transition} {x : RunnerId}

/-- The start and the end of a thread race with everything but the creation and the joining of
threads. -/
theorem races_of_target_eq_none (hne : u.executor ≠ t.executor)
    (hends : (u.op = .threadStart ∨ u.op.exits = true) ∨ t.op.exits = true)
    (hu : u.op.target = none) (ht : t.op.target = none) :
    areDependent defaultDependencies u t = true ∧ areCoenabled defaultCoenabledness u t = true := by
  have hexecutor : (u.executor == t.executor) = false := beq_false_of_ne hne
  rw [areDependent, areCoenabled, hexecutor, bne, hexecutor, callOr_defaultDependencies,
    callOr_defaultCoenabledness]
  obtain ⟨p, op⟩ := u
  obtain ⟨q, op'⟩ := t
  rcases hends with (hstart | hexits) | hexits
  · obtain rfl : op = .threadStart := hstart
    cases op' with
    | threadCreate b | threadJoin b => cases ht
    | _ => exact ⟨rfl, rfl⟩
  · cases op with
    | threadExit | processExit n =>
      cases op' with
      | threadCreate b | threadJoin b => cases ht
      | _ => exact ⟨rfl, rfl⟩
    | _ => cases hexits
  · cases op' with
    | threadExit | processExit n =>
      cases op with
      | threadCreate b | threadJoin b => cases hu
      | _ => exact ⟨rfl, rfl⟩
    | _ => cases hexits

/-- The start of a thread does not race with the creation and the joining of threads. -/
theorem not_races_of_target (hstart : u.op = .threadStart) (ht : t.op.target = some x)
    (hne : u.executor ≠ t.executor) :
    ¬ (areDependent defaultDependencies u t = true ∧ areCoenabled defaultCoenabledness u t = true) := by
  have hexecutor : (u.executor == t.executor) = false := beq_false_of_ne hne
  rw [areDependent, areCoenabled, hexecutor, bne, hexecutor, callOr_defaultDependencies,
    callOr_defaultCoenabledness]
  obtain ⟨p, op⟩ := u
  obtain ⟨q, op'⟩ := t
  obtain rfl : op = .threadStart := hstart
  rcases Operation.target_eq_some.mp ht with hop | hop
  · obtain rfl : op' = .threadCreate x := hop
    simp
  · obtain rfl : op' = .threadJoin x := hop
    simp

end Relations

/-! ### The position before a creation or a join -/

/-- What is known of the stack when the trace has been expanded. -/
structure Maintained (config : Configuration) (r₀ : ℕ) (runners : List ℕ) (c : Coordinator)
    (stack : List StackItem) (hs : List ItemHistory) : Prop where
  invariant : StackInvariant r₀ runners c stack hs
  kept : RuleKept config c stack hs
  bounded : ClocksBounded stack
  inherited : ClocksInherited stack
  runsOn : c.currentProgramModel.RunsOn

namespace Maintained

variable {config : Configuration} {r₀ : ℕ} {runners : List ℕ} {c : Coordinator}
  {stack : List StackItem} {hs : List ItemHistory} {d i : ℕ} {q x : RunnerId} {t u v : Transition}
  {item : StackItem} {hist hist' : ItemHistory}

theorem le_length (h : Maintained config r₀ runners c stack hs) (hhist : hs[d]? = some hist) :
    d ≤ c.getTrace.length ∧ ∃ item, stack[d]? = some item ∧
      ItemInvariant c.currentProgramModel r₀ runners d item hist := by
  have hlt := (List.getElem?_eq_some_iff.mp hhist).1
  rw [h.invariant.histories] at hlt
  have hitem := List.getElem?_eq_getElem hlt
  refine ⟨?_, _, hitem, h.invariant.items d _ hist hitem hhist⟩
  rw [h.invariant.length] at hlt
  exact Nat.le_of_lt_succ hlt

/-- What was pending when the model was at a depth is what the model remembers of it. -/
theorem pendingAtDepth (h : Maintained config r₀ runners c stack hs) (hhist : hs[d]? = some hist)
    (hq : q < hist.model.runnerCount) :
    c.currentProgramModel.pendingAtDepth d q = hist.model.nextSteps.lookup q := by
  obtain ⟨hle, item, -, hitem⟩ := h.le_length hhist
  have hlength : hist.model.trace.length = d := by
    have hle' : d ≤ c.currentProgramModel.trace.length := hle
    rw [hitem.trace, List.length_take, min_eq_left hle']
  rw [hitem.keeps.pending d le_rfl q hq, ← hlength, Program.pendingAtDepth_length]

/-- No runner has been forgotten from one depth to the next. -/
theorem runnerCount_le (h : Maintained config r₀ runners c stack hs) (hhist : hs[d]? = some hist)
    (hhist' : hs[d + 1]? = some hist') : hist.model.runnerCount ≤ hist'.model.runnerCount := by
  obtain ⟨-, item, -, hitem⟩ := h.le_length hhist
  obtain ⟨-, item', -, hitem'⟩ := h.le_length hhist'
  obtain ⟨layers, hlayers, hrunners⟩ := h.invariant.layered.layers
  have hcount := hitem.count
  have hcount' := hitem'.count
  rw [← hrunners, List.getElem?_map] at hcount hcount'
  obtain ⟨l, hl, hl_count⟩ := Option.map_eq_some_iff.mp hcount
  obtain ⟨l', hl', hl'_count⟩ := Option.map_eq_some_iff.mp hcount'
  obtain ⟨hlt, hl⟩ := List.getElem?_eq_some_iff.mp hl
  obtain ⟨hlt', hl'⟩ := List.getElem?_eq_some_iff.mp hl'
  have hbelow := List.pairwise_iff_getElem.mp hlayers.below d (d + 1) hlt hlt' (Nat.lt_succ_self d)
  rw [hl, hl'] at hbelow
  have hvalid := hlayers.valid l (hl ▸ List.getElem_mem hlt)
  rw [← hl_count, ← hl'_count]
  exact hvalid.runners_le.trans hbelow.runners

/-- A runner which is enabled at a depth was enabled when the model was there. -/
theorem lookup_of_enabled (h : Maintained config r₀ runners c stack hs) (hhist : hs[d]? = some hist)
    (henabled : c.currentProgramModel.EnabledAtDepth d q) :
    ∃ u, hist.model.nextSteps.lookup q = some u ∧
      u.isEnabledIn hist.model.stateSeq.toState = .ok true ∧ u.executor = q ∧
      q < hist.model.runnerCount ∧ c.currentProgramModel.pendingAtDepth d q = some u := by
  obtain ⟨hle, item, -, hitem⟩ := h.le_length hhist
  obtain ⟨l, hl, hrunners⟩ := hitem.enabled
  have hmem := (hitem.mem_enabledRunners_iff h.invariant.layered hle).mpr henabled
  rw [hrunners, List.mem_toFinset] at hmem
  obtain ⟨u, hu, henabled⟩ := ((Program.getEnabledRunners_eq_ok hl).2 q).mp hmem
  have hlt := hitem.layered.known q u hu
  exact ⟨u, hu, henabled, hitem.layered.keyed q u hu, hlt, (h.pendingAtDepth hhist hlt).trans hu⟩

/-- A thread which runs at a depth ran when the model was there. -/
theorem active_of_stateAtDepth (h : Maintained config r₀ runners c stack hs)
    (hhist : hs[d]? = some hist) {w : State}
    (hw : c.currentProgramModel.stateSeq.stateAtDepth d = some w) (hq : w.Active q) :
    hist.model.stateSeq.toState.Active q := by
  obtain ⟨hle, item, -, hitem⟩ := h.le_length hhist
  have hlength : hist.model.trace.length = d := by
    have hle' : d ≤ c.currentProgramModel.trace.length := hle
    rw [hitem.trace, List.length_take, min_eq_left hle']
  have hstate := hitem.layered.stateAtDepth_length
  rw [hlength] at hstate
  obtain ⟨w', hw', hext⟩ := hitem.keeps.states d le_rfl _ hstate
  obtain rfl : w = w' := Option.some.inj (hw.symm.trans hw')
  refine hitem.layered.hasThread_of_extendedBy h.invariant.layered.toDeep ?_ hstate hw hext hq (by decide)
  rw [List.getElem?_take_of_lt (Nat.lt_succ_self d)]

/-- The transition at a depth does not happen before what another runner has executed until the
next one. -/
theorem happensBeforeThread_eq_false (h : Maintained config r₀ runners c stack hs) (hi : 1 ≤ i)
    (ht : c.getTrace[i]? = some t) (hq : t.executor ≠ q) (hlt : q < maxTotalThreadsInProgram) :
    happensBeforeThread (stack.take (i + 2)) i q = .ok false := by
  have hlength : i + 1 < stack.length := by
    have hlt := (List.getElem?_eq_some_iff.mp ht).1
    rw [h.invariant.length]
    omega
  have htake : (stack.take (i + 2)).length = i + 2 := by
    rw [List.length_take]
    omega
  have hitem : stack[i]? = some stack[i] := List.getElem?_eq_getElem (by omega)
  have hnext : stack[i + 1]? = some stack[i + 1] := List.getElem?_eq_getElem hlength
  obtain ⟨hist, hhist⟩ : ∃ hist, hs[i]? = some hist :=
    ⟨_, List.getElem?_eq_getElem (by rw [h.invariant.histories]; omega)⟩
  have hout := (h.invariant.items i _ hist hitem hhist).out t ht
  -- the clock is what it was before the transition
  have hclock := h.inherited.next i _ _ t hitem hnext hout q hq
  have hrunner : stack[i].perRunnerClocks[q]? = some stack[i].perRunnerClocks[q] :=
    Vector.getElem?_eq_getElem hlt
  have hle := (h.bounded i _ hitem).runner q _ hrunner t.executor hq
  rw [happensBeforeThread_eq_bind]
  refine bind_eq_ok.mpr ⟨t, ?_, bind_eq_ok.mpr ⟨stack[i].perRunnerClocks[q].cv, ?_, ?_⟩⟩
  · rw [getTransition_eq_elim, List.getElem?_take_of_lt (by omega), hitem, Option.map_some,
      Option.elim_some, hout]
    rfl
  · rw [List.getLast?_eq_getElem?, htake, Nat.add_sub_assoc (by omega),
      List.getElem?_take_of_lt (by omega), hnext, Option.map_some, Option.elim_some, hclock, hrunner]
    rfl
  · have hnot : ¬ i ≤ stack[i].perRunnerClocks[q].cv.valueFor t.executor := by omega
    rw [decide_eq_false hnot]
    rfl

/-- Where what another runner has pending after the transition at `i` races with it, that runner has
been covered at `i`. If it was not enabled there, all enabled runners have been. -/
theorem covered_of_race (h : Maintained config r₀ runners c stack hs) (hi : 1 ≤ i)
    (ht : c.getTrace[i]? = some t) (hitem : stack[i]? = some item) (hhist : hs[i + 1]? = some hist)
    (hq : t.executor ≠ q) (hlt : q < maxTotalThreadsInProgram) (hcount : q < hist.model.runnerCount)
    (hu : c.currentProgramModel.pendingAtDepth (i + 1) q = some u)
    (hraces : areDependent config.dependencyRelation u t = true ∧
      areCoenabled config.coenabledRelation u t = true) :
    (q ∈ item.enabledRunners → q ∈ item.covered) ∧
      (q ∉ item.enabledRunners → item.enabledRunners ⊆ item.covered) := by
  have htrace := (List.getElem?_eq_some_iff.mp ht).1
  have hlength : i + 1 < stack.length := by
    rw [h.invariant.length]
    omega
  have htake : (stack.take (i + 2)).length = i + 2 := by
    rw [List.length_take]
    omega
  have hknown : KnownSince c.getTrace hs (i + 1) i q :=
    .inl ⟨hist, u, hhist, (h.pendingAtDepth hhist hcount).symm.trans hu⟩
  have hrace : LastRaceAt config (c.getTrace.take (i + 1))
      (c.currentProgramModel.pendingAtDepth (i + 1) q) (stack.take (i + 2)) i q := by
    refine ⟨⟨t, u, ?_, hu, hraces.1, hraces.2, h.happensBeforeThread_eq_false hi ht hq hlt⟩, ?_⟩
    · rwa [List.getElem?_take_of_lt (Nat.lt_succ_self i)]
    · rintro j hj ⟨S_j, -, hS_j, -⟩
      have hlt' := (List.getElem?_eq_some_iff.mp hS_j).1
      rw [List.length_take] at hlt'
      omega
  have hrule := h.kept (i + 1) i q hlength (Nat.lt_succ_self i) hknown hrace
  have hitem' : (stack.take (i + 1 + 1))[i]? = some item := by
    rw [List.getElem?_take_of_lt (by omega), hitem]
  obtain ⟨hsome, hnone⟩ := hrule item hitem'
  -- nothing has been executed after the transition at this depth
  have hahead : ∀ r, GetsAhead (stack.take (i + 1 + 1)) i q r ↔ r = q := by
    intro r
    have hempty : i + 2 - 1 - (i + 1) = 0 := by omega
    have hfalse : threadsRaceAfter (stack.take (i + 2)) i r q = .ok false := by
      rw [threadsRaceAfter, htake, hempty]
      rfl
    rw [GetsAhead, hfalse]
    simp
  simp only [hahead] at hsome hnone
  refine ⟨fun hmem => ?_, fun hmem => hnone fun r hr heq => hmem (heq ▸ hr)⟩
  obtain ⟨r, -, rfl, hcovered⟩ := hsome ⟨q, hmem, rfl⟩
  exact hcovered

/-- The executor of a transition runs. -/
theorem executor_ne_of_idle (h : Maintained config r₀ runners c stack hs)
    (ht : c.getTrace[i]? = some t)
    (hidle : ∀ w, c.currentProgramModel.stateSeq.stateAtDepth i = some w → ¬ w.Active q) :
    t.executor ≠ q := by
  rintro rfl
  obtain ⟨w, hw, hactive⟩ := h.invariant.layered.active_of_enabledAtDepth
    (h.invariant.layered.executable i t ht)
  exact hidle w hw hactive

variable (hdep : config.dependencyRelation = defaultDependencies)
  (hco : config.coenabledRelation = defaultCoenabledness)

include hdep hco

/-- Where another runner is not running at `i`, and afterwards at its beginning or its end, all
enabled runners have been covered. -/
theorem covered_of_idle (h : Maintained config r₀ runners c stack hs) (hi : 1 ≤ i)
    (ht : c.getTrace[i]? = some t) (hitem : stack[i]? = some item) (hhist : hs[i + 1]? = some hist)
    (htarget : t.op.target = none)
    (hidle : ∀ w, c.currentProgramModel.stateSeq.stateAtDepth i = some w → ¬ w.Active q)
    (hlt : q < maxTotalThreadsInProgram) (hcount : q < hist.model.runnerCount)
    (hu : c.currentProgramModel.pendingAtDepth (i + 1) q = some u)
    (hends : u.op = .threadStart ∨ u.op.exits = true) : item.enabledRunners ⊆ item.covered := by
  have hq := h.executor_ne_of_idle ht hidle
  have htarget' : u.op.target = none := by
    cases hop : u.op with
    | threadCreate b | threadJoin b => simp [hop, Operation.exits] at hends
    | _ => rfl
  have hraces := races_of_target_eq_none (u := u) (t := t)
    (by rw [(h.invariant.layered.pending_lt hu).1]; exact hq.symm) (.inl hends) htarget' htarget
  refine (h.covered_of_race hi ht hitem hhist hq hlt hcount hu (by rw [hdep, hco]; exact hraces)).2
    fun hmem => ?_
  obtain ⟨hist₀, hhist₀⟩ : ∃ hist₀, hs[i]? = some hist₀ := by
    have hlength := (List.getElem?_eq_some_iff.mp hhist).1
    exact ⟨_, List.getElem?_eq_getElem (by omega)⟩
  obtain ⟨hle, item', hitem', hinvariant⟩ := h.le_length hhist₀
  obtain rfl := Option.some.inj (hitem.symm.trans hitem')
  obtain ⟨w, hw, hactive⟩ := h.invariant.layered.active_of_enabledAtDepth
    ((hinvariant.mem_enabledRunners_iff h.invariant.layered hle).mp hmem)
  exact hidle w hw hactive

/-- Where a thread has exited at `i`, all enabled runners have been covered: what is pending for
them races with the exit, or creates or joins a thread which does not run. -/
theorem covered_of_exits (h : Maintained config r₀ runners c stack hs) (hi : 1 ≤ i)
    (ht : c.getTrace[i]? = some t) (hitem : stack[i]? = some item) (hhist : hs[i]? = some hist)
    (hhist' : hs[i + 1]? = some hist') (hexits : t.op.exits = true)
    (hpromise : hist.model.KeepsPromises)
    (hsmall : hist'.model.runnerCount ≤ maxTotalThreadsInProgram) :
    item.enabledRunners ⊆ item.covered := by
  intro q hq
  obtain ⟨hle, item', hitem', hinvariant⟩ := h.le_length hhist
  obtain rfl := Option.some.inj (hitem.symm.trans hitem')
  have htarget : t.op.target = none := by
    cases hop : t.op with
    | threadCreate b | threadJoin b => simp [hop, Operation.exits] at hexits
    | _ => rfl
  by_cases hqt : t.executor = q
  · have hcurrent : hist.current = some t := hinvariant.current.trans ht
    have hdone : q ∈ item.doneSet := by
      refine (hinvariant.done q).mpr (List.mem_map.mpr ⟨t, ?_, hqt⟩)
      rw [ItemHistory.executed, hcurrent]
      exact List.mem_append_right _ (List.mem_singleton_self t)
    exact Finset.mem_union_left _ (Finset.mem_union_right _ hdone)
  have henabled := (hinvariant.mem_enabledRunners_iff h.invariant.layered hle).mp hq
  obtain ⟨u, hu, hnow, hexecutor, hcount, hpending⟩ := h.lookup_of_enabled hhist henabled
  have hcount' := hcount.trans_le (h.runnerCount_le hhist hhist')
  have hpending' : c.currentProgramModel.pendingAtDepth (i + 1) q = some u :=
    (Program.pendingAtDepth_succ ht hqt).trans hpending
  cases hop : u.op.target with
  | none =>
    -- the exit of another thread races with all which name no thread
    have hraces := races_of_target_eq_none (u := u) (t := t) (by rw [hexecutor]; exact Ne.symm hqt)
      (.inr hexits) hop htarget
    exact (h.covered_of_race hi ht hitem hhist' hqt (hcount'.trans_le hsmall) hcount' hpending'
      (by rw [hdep, hco]; exact hraces)).1 hq
  | some y =>
    -- otherwise the thread which is named does not run, and its own race has covered all
    obtain ⟨hidle, v, hv, hends⟩ := hpromise.target hu hexecutor hnow hop
    have hidle' : ∀ w, c.currentProgramModel.stateSeq.stateAtDepth i = some w → ¬ w.Active y :=
      fun w hw hactive => hidle (h.active_of_stateAtDepth hhist hw hactive)
    have hy := hinvariant.layered.known y v hv
    have hy' := hy.trans_le (h.runnerCount_le hhist hhist')
    have hv' : c.currentProgramModel.pendingAtDepth (i + 1) y = some v := by
      rw [Program.pendingAtDepth_succ ht (h.executor_ne_of_idle ht hidle'), h.pendingAtDepth hhist hy, hv]
    exact h.covered_of_idle hdep hco hi ht hitem hhist' htarget hidle' (hy'.trans_le hsmall) hy' hv'
      hends hq

/-- Where the transition after `i` creates or joins a thread, and that at `i` does not end one, all
enabled runners have been covered at `i`. -/
theorem covered_of_target (h : Maintained config r₀ runners c stack hs) (hi : 1 ≤ i)
    (ht : c.getTrace[i]? = some t) (hnext : c.getTrace[i + 1]? = some u) (hitem : stack[i]? = some item)
    (hhist' : hs[i + 1]? = some hist') (htarget : t.op.target = none) (hexits : t.op.exits ≠ true)
    (hx : u.op.target = some x) (hpromise : hist'.model.KeepsPromises)
    (hsmall : hist'.model.runnerCount ≤ maxTotalThreadsInProgram) :
    item.enabledRunners ⊆ item.covered := by
  obtain ⟨hle, item', -, hinvariant⟩ := h.le_length hhist'
  obtain ⟨u', hu, hnow, hexecutor, -, hpending⟩ :=
    h.lookup_of_enabled hhist' (h.invariant.layered.executable (i + 1) u hnext)
  obtain rfl : u = u' := Option.some.inj ((Program.pendingAtDepth_executor hnext).symm.trans hpending)
  obtain ⟨hidle, v, hv, hends⟩ := hpromise.target hu hexecutor hnow hx
  have hcount := hinvariant.layered.known x v hv
  refine h.covered_of_idle hdep hco hi ht hitem hhist' htarget (fun w hw hactive => hidle ?_)
    (hcount.trans_le hsmall) hcount ((h.pendingAtDepth hhist' hcount).trans hv) hends
  obtain ⟨w', hw'⟩ := h.invariant.layered.exists_stateAtDepth hle
  have hactive' := (h.runsOn i t w w' ht hw hw' x hactive).resolve_right fun hends => hexits hends.2
  exact h.active_of_stateAtDepth hhist' hw' hactive'

end Maintained

/-! ### The rule for every runner -/

section Rule

variable {source : ProcessSource} {config : Configuration} {callbacks : Finset Callback}
  {c c' : Coordinator} {s : Search} {hs : List ItemHistory} {stack : List StackItem} {i : ℕ}
  {p : RunnerId} {t : Transition}

theorem maintained_of_expands (hc : c.Initial) (h : Traced source config callbacks c s hs)
    (hexpands : s.Expands source config stack c') (ht : c'.getTrace.getLast? = some t) :
    c'.Grown c.currentProgramModel.runnerCount ∧
      ∃ runners, Maintained config c.currentProgramModel.runnerCount runners c' stack
        (expandHistories hs t c'.currentProgramModel) := by
  obtain ⟨runners, init, back, t', new, heq, hstack, -, hdone, hexpansion⟩ :=
    (searchInvariant_of_traced hc h hexpands.stack_ne_nil).expands hexpands
  have ht' := ht
  rw [hexpansion.trace, List.getLast?_concat] at ht'
  obtain rfl := Option.some.inj ht'
  have hgrown : c'.Grown c.currentProgramModel.runnerCount := by
    have hbefore := grown_of_reachable hc h.reachable
    cases hexpands with
    | explore _ _ _ _ _ hrun =>
      exact hbefore.executeRunner (continueDporByExpandingTraceWith_eq_ok hrun).1
    | follow _ _ _ _ _ _ hrun =>
      exact hbefore.executeRunner (continueDporByExpandingTraceWith_eq_ok hrun).1
  exact ⟨hgrown, _, (heq ▸ hstack).expand hexpansion hdone,
    (ruleKept_of_traced hc h).of_expands hc h hexpands ht,
    clocks_of_expands ClocksBounded.replace ClocksBounded.expand
      (clocksBounded_of_reachable h.reachable) hexpands,
    clocks_of_expands ClocksInherited.replace ClocksInherited.expand
      (clocksInherited_of_reachable h.reachable) hexpands, hgrown.runsOn⟩

/-- What is pending for a runner which has executed nothing has been pending all the time. -/
theorem Program.pendingAtDepth_of_idle {m : Program} (h : ∀ u ∈ m.trace, u.executor ≠ p) (d : ℕ) :
    m.pendingAtDepth d p = m.nextSteps.lookup p := by
  have hnone : (m.trace.drop d).find? (·.executor == p) = none := by
    refine List.find?_eq_none.mpr fun u hu hexec => ?_
    exact h u (List.mem_of_mem_drop hu) (by simpa using hexec)
  rw [pendingAtDepth, hnone, Option.none_or]

/-- For a runner which has executed nothing no transition of the trace lies in its past, other than
the first one as far as the test goes. -/
theorem Maintained.happensBeforeThread_of_idle {r₀ : ℕ} {runners : List ℕ}
    (h : Maintained config r₀ runners c stack hs) (hidle : ∀ u ∈ c.getTrace, u.executor ≠ p) {b : Bool}
    (hbefore : happensBeforeThread stack i p = .ok b) :
    p < maxTotalThreadsInProgram ∧ ∀ (j : ℕ) (u : Transition), c.getTrace[j]? = some u →
      happensBeforeThread stack j p = .ok (decide (j = 0)) := by
  have hlength := h.invariant.length
  obtain ⟨top, htop⟩ : ∃ top, stack.getLast? = some top :=
    ⟨_, List.getLast?_eq_some_getLast (List.ne_nil_of_length_pos (by omega))⟩
  obtain ⟨runner, hrunner⟩ : ∃ runner, top.perRunnerClocks[p]? = some runner := by
    rw [happensBeforeThread_eq_bind] at hbefore
    obtain ⟨S_i, -, hclock⟩ := bind_eq_ok.mp hbefore
    obtain ⟨cv, hcv, -⟩ := bind_eq_ok.mp hclock
    rw [htop, Option.map_some, Option.elim_some] at hcv
    cases hrunner : top.perRunnerClocks[p]? with
    | none =>
      rw [hrunner] at hcv
      cases hcv
    | some runner => exact ⟨runner, rfl⟩
  have hout : ∀ (k : ℕ) (item : StackItem) (u : Transition), stack[k]? = some item →
      c.getTrace[k]? = some u → item.outTransition = .valid u := by
    intro k item u hitem hu
    have hlt := (List.getElem?_eq_some_iff.mp hitem).1
    have hlt' : k < hs.length := h.invariant.histories ▸ hlt
    have hhist : hs[k]? = some hs[k] := List.getElem?_eq_getElem hlt'
    exact (h.invariant.items k item _ hitem hhist).out u hu
  -- the clock of a runner is that of its last transition, and it has none
  have hempty : runner.cv = .empty := by
    rw [List.getLast?_eq_getElem?] at htop
    exact h.inherited.eq_empty hout hlength hidle htop hrunner
  refine ⟨(Vector.getElem?_eq_some_iff.mp hrunner).1, fun j u hu => ?_⟩
  have hlt := (List.getElem?_eq_some_iff.mp hu).1
  have hitem : stack[j]? = some stack[j] := List.getElem?_eq_getElem (by omega)
  rw [happensBeforeThread_eq_bind]
  refine bind_eq_ok.mpr ⟨u, ?_, bind_eq_ok.mpr ⟨runner.cv, ?_, ?_⟩⟩
  · rw [getTransition_eq_elim, hitem, Option.map_some, Option.elim_some, hout j _ u hitem hu]
    rfl
  · rw [htop, Option.map_some, Option.elim_some, hrunner]
    rfl
  · rw [hempty, ClockVector.valueFor_empty, decide_eq_decide.mpr Nat.le_zero]
    rfl

/-- **The update is as good as the full rule.** Whenever the trace has been expanded, and `i` is the
last position at which what a runner has pending races, the rule for backtrack points is fulfilled
there: for every runner, not only for the one which has moved. The relations are the default ones,
and the target keeps its promises in the models of the search. -/
theorem backtracksFor_of_lastRaceAt (hc : c.Initial)
    (hdep : config.dependencyRelation = defaultDependencies)
    (hco : config.coenabledRelation = defaultCoenabledness)
    (hpromise : ∀ s, Search.Reachable source config callbacks c s →
      s.coordinator.currentProgramModel.KeepsPromises)
    (h : Search.Reachable source config callbacks c s) (hexpands : s.Expands source config stack c')
    (hrace : LastRaceAt config c'.getTrace (c'.currentProgramModel.nextSteps.lookup p) stack i p) :
    BacktracksFor stack i p := by
  obtain ⟨hs, h⟩ := h.traced
  obtain ⟨t, ht, -⟩ := stack_of_expands hc h hexpands
  by_cases hknown : KnownSince c'.getTrace (expandHistories hs t c'.currentProgramModel)
      c'.getTrace.length i p
  · exact backtracksFor_of_knownSince hc h hexpands ht hknown hrace
  obtain ⟨hgrown, runners, hmaintained⟩ := maintained_of_expands hc h hexpands ht
  have hinvariant := hmaintained.invariant
  obtain ⟨⟨S_i, u, hS_i, hu, hdependent, hcoenabled, hbefore⟩, hlast⟩ := hrace
  have hi := (List.getElem?_eq_some_iff.mp hS_i).1
  have hhistory : ∀ d ≤ c'.getTrace.length, ∃ hist,
      (expandHistories hs t c'.currentProgramModel)[d]? = some hist := fun d hd =>
    ⟨_, List.getElem?_eq_getElem (by rw [hinvariant.histories, hinvariant.length]; omega)⟩
  obtain ⟨hist, hhist⟩ := hhistory i hi.le
  obtain ⟨hist', hhist'⟩ := hhistory (i + 1) hi
  have hmodels : ∀ {d : ℕ} {hist : ItemHistory},
      (expandHistories hs t c'.currentProgramModel)[d]? = some hist →
      (hs.map (·.model) ++ [c'.currentProgramModel])[d]? = some hist.model := by
    intro d hist hhist
    rw [← map_model_expandHistories hs t, List.getElem?_map, hhist, Option.map_some]
  have hcount : (hs.map (·.model)).length = c'.getTrace.length := by
    have hlength := congrArg List.length (map_model_expandHistories hs t c'.currentProgramModel)
    rw [List.length_map, hinvariant.histories, hinvariant.length, List.length_append] at hlength
    exact (Nat.succ.inj hlength).symm
  -- the runner has executed nothing, and has become known after the transition at `i`
  have hidle : ∀ u ∈ c'.getTrace, u.executor ≠ p := fun u hu hexec =>
    hknown (.inr ⟨u, by rwa [List.take_length], hexec⟩)
  have hlate : hist'.model.runnerCount ≤ p := by
    by_contra hlt
    have hpending := hmaintained.pendingAtDepth hhist' (not_le.mp hlt)
    rw [Program.pendingAtDepth_of_idle hidle, hu] at hpending
    exact hknown (.inl ⟨hist', u, hhist', hpending.symm⟩)
  obtain ⟨-, item', -, hitem'⟩ := hmaintained.le_length hhist'
  obtain rfl : u = ⟨p, .threadStart⟩ := by
    have hstart := hgrown.discovered p (hitem'.layered.initially.trans hlate)
      (hinvariant.layered.known p u hu)
    rw [Program.pendingAtDepth_of_idle hidle, hu] at hstart
    exact Option.some.inj hstart
  obtain ⟨hsmall, hclock⟩ := hmaintained.happensBeforeThread_of_idle hidle hbefore
  have hone : 1 ≤ i := by
    rw [hclock i S_i hS_i] at hbefore
    by_contra hzero
    obtain rfl : i = 0 := by omega
    cases hbefore
  rw [hdep] at hdependent
  rw [hco] at hcoenabled
  have htarget : S_i.op.target = none := by
    by_contra hsome
    obtain ⟨x, hx⟩ := Option.ne_none_iff_exists'.mp hsome
    exact not_races_of_target rfl hx (Ne.symm (hidle S_i (List.mem_of_getElem? hS_i)))
      ⟨hdependent, hcoenabled⟩
  -- the transition after it does not race, hence it creates or joins a thread
  have hnext : i + 1 < c'.getTrace.length := by
    refine lt_of_le_of_ne hi fun htop => ?_
    have hmodel := hmodels hhist'
    have htop' : i + 1 = (hs.map (·.model)).length := hcount ▸ htop
    rw [htop', List.getElem?_concat_length] at hmodel
    rw [← Option.some.inj hmodel] at hlate
    exact absurd (hinvariant.layered.known p _ hu) (not_lt.mpr hlate)
  obtain ⟨S_next, hS_next⟩ : ∃ S_next, c'.getTrace[i + 1]? = some S_next :=
    ⟨_, List.getElem?_eq_getElem hnext⟩
  obtain ⟨x, hx⟩ : ∃ x, S_next.op.target = some x := by
    refine Option.ne_none_iff_exists'.mp fun hnone => hlast (i + 1) (Nat.lt_succ_self i) ?_
    obtain ⟨hdependent', hcoenabled'⟩ := races_of_target_eq_none (u := ⟨p, .threadStart⟩)
      (Ne.symm (hidle S_next (List.mem_of_getElem? hS_next))) (.inl (.inl rfl)) rfl hnone
    refine ⟨S_next, _, hS_next, hu, hdep ▸ hdependent', hco ▸ hcoenabled', ?_⟩
    rw [hclock (i + 1) S_next hS_next]
    rfl
  have hpromises : ∀ {d : ℕ} {hist : ItemHistory}, d < c'.getTrace.length →
      (expandHistories hs t c'.currentProgramModel)[d]? = some hist → hist.model.KeepsPromises := by
    intro d hist hd hhist
    have hmodel := hmodels hhist
    rw [List.getElem?_append_left (by rw [hcount]; exact hd)] at hmodel
    exact forall_model_of_traced hpromise h _ (List.mem_of_getElem? hmodel)
  have hcovered : ∀ item, stack[i]? = some item → item.enabledRunners ⊆ item.covered := by
    intro item hitem
    by_cases hexits : S_i.op.exits = true
    · exact hmaintained.covered_of_exits hdep hco hone hS_i hitem hhist hhist' hexits
        (hpromises hi hhist) (hlate.trans hsmall.le)
    · exact hmaintained.covered_of_target hdep hco hone hS_i hS_next hitem hhist' htarget hexits hx
        (hpromises hnext hhist') (hlate.trans hsmall.le)
  intro item hitem
  refine ⟨?_, fun _ => hcovered item hitem⟩
  rintro ⟨q, hq, hahead⟩
  exact ⟨q, hq, hahead, hcovered item hitem hq⟩

end Rule

/-- What a target promises, checked for the runners of the model. -/
private def Program.promisesKept (p : Program) : Bool :=
  (p.runners.all fun q => match p.nextSteps.lookup q with
    | some ⟨_, .threadCreate x⟩ => !((p.stateSeq.toState.getStateOfRunner x).toOption.any Thread.isActive)
    | _ => true) &&
  (List.range p.stateSeq.representative.maxVisibleRunnerId).all fun x =>
    (p.stateSeq.toState.getStateOfRunner x).toOption.any Thread.isActive ||
      (p.nextSteps.lookup x).any fun u => u.op = .threadStart || u.op.exits

private theorem any_isActive_iff {u : State} {x : RunnerId} :
    (u.getStateOfRunner x).toOption.any Thread.isActive = true ↔ u.Active x := by
  rw [State.active_iff]
  constructor
  · intro h
    obtain ⟨th, hth, hactive⟩ := (Option.any_eq_true _ _).mp h
    cases hresult : u.getStateOfRunner x with
    | error e =>
      rw [hresult] at hth
      cases hth
    | ok th' =>
      rw [hresult] at hth
      obtain rfl := Option.some.inj hth
      exact ⟨th', State.getStateOfRunner_eq_ok.mp hresult, hactive⟩
  · rintro ⟨th, hth, hactive⟩
    rw [State.getStateOfRunner_eq_ok.mpr hth]
    exact hactive

private theorem Program.keepsPromises_of_promisesKept {p : Program} (h : p.promisesKept = true) :
    p.KeepsPromises := by
  obtain ⟨hcreated, hidle⟩ := Bool.and_eq_true_iff.mp h
  refine ⟨fun q x hq hactive => ?_, fun x th hth hx => ?_⟩
  · have hq' := List.all_eq_true.mp hcreated q (mem_runners.mpr ⟨_, hq⟩)
    rw [hq] at hq'
    dsimp only at hq'
    rw [any_isActive_iff.mpr hactive] at hq'
    cases hq'
  · obtain ⟨i, hi, -⟩ := hth
    have hlt := (StateSequence.stateAt_objidForRunner.mp hi).1
    have hx' := List.all_eq_true.mp hidle x (List.mem_range.mpr hlt)
    rcases Bool.or_eq_true_iff.mp hx' with hactive | hends
    · exact absurd (any_isActive_iff.mp hactive) hx
    · obtain ⟨u, hu, hop⟩ := (Option.any_eq_true _ _).mp hends
      exact ⟨u, hu, by simpa using hop⟩

/-- The main thread initializes a semaphore and creates two threads, which exit. -/
private def creatingBoth : ProcessSource := fun executed p =>
  match p, executed.count 0 with
  | 0, 0 => .ok (.semInit 1 0)
  | 0, 1 => .ok (.threadCreate 100)
  | 0, 2 => .ok (.threadCreate 200)
  | _, _ => .ok .threadExit

private def searchOfCreatingBoth : ℕ → Search
  | 0 => Search.atMain
  | n + 1 =>
    match (searchOfCreatingBoth n).step creatingBoth {} ∅ with
    | .continues s => s
    | _ => searchOfCreatingBoth n

private theorem steps_searchOfCreatingBoth : ∀ n < 3,
    Steps creatingBoth {} ∅ (searchOfCreatingBoth n) (searchOfCreatingBoth (n + 1))
  | 0, _ | 1, _ | 2, _ => by rfl

/-- When the first thread is about to be created, the second one is not known. When it is known, its
start races with the initialization before. -/
theorem backtracksFor_of_creating : ∃ (s : Search) (stack : List StackItem) (c' : Coordinator),
    Search.Reachable creatingBoth {} ∅ .atMain s ∧ s.Expands creatingBoth {} stack c' ∧
      LastRaceAt {} c'.getTrace (c'.currentProgramModel.nextSteps.lookup 2) stack 1 2 ∧
      BacktracksFor stack 1 2 := by
  have hstart : start .atMain = .ok Search.atMain := by rfl
  have hkept : Search.atMain.passes creatingBoth {} ∅
      (·.coordinator.currentProgramModel.promisesKept) 30 = true := by decide +kernel
  have hreachable : Search.Reachable creatingBoth {} ∅ .atMain (searchOfCreatingBoth 2) := by
    refine ⟨searchOfCreatingBoth 0, hstart, ?_⟩
    exact (Relation.ReflTransGen.single (steps_searchOfCreatingBoth 0 (by omega))).tail
      (steps_searchOfCreatingBoth 1 (by omega))
  have hexpands : (searchOfCreatingBoth 2).Expands creatingBoth {} (searchOfCreatingBoth 3).stack
      (searchOfCreatingBoth 3).coordinator := by
    have hbefore : (searchOfCreatingBoth 2).phase = .exploration := by rfl
    have hafter : (searchOfCreatingBoth 3).phase = .exploration := by rfl
    have hlength : (searchOfCreatingBoth 3).stack.length = 4 := by rfl
    cases (steps_searchOfCreatingBoth 2 (by omega)).move with
    | explore init back hphases hstack henabled _ hrun =>
      exact .explore init back hphases.1 hstack henabled hrun
    | finish _ _ hstack _ =>
      rw [hstack] at hlength
      cases hlength
    | goBack _ _ hphases => exact absurd (hafter.symm.trans hphases.2) (by decide)
    | follow _ _ _ hphases => exact absurd (hbefore.symm.trans hphases.1) (by decide)
  have htrace : (searchOfCreatingBoth 3).coordinator.getTrace =
      [⟨0, .threadStart⟩, ⟨0, .semInit 1 0⟩, ⟨0, .threadCreate 1⟩] := by rfl
  have hpending : (searchOfCreatingBoth 3).coordinator.currentProgramModel.nextSteps.lookup 2 =
      some ⟨2, .threadStart⟩ := by rfl
  have hrace : LastRaceAt {} (searchOfCreatingBoth 3).coordinator.getTrace
      ((searchOfCreatingBoth 3).coordinator.currentProgramModel.nextSteps.lookup 2)
      (searchOfCreatingBoth 3).stack 1 2 := by
    rw [htrace, hpending]
    refine ⟨⟨_, _, rfl, rfl, by decide, by decide, by rfl⟩, fun j hj => ?_⟩
    rintro ⟨S_j, u, hS_j, hu, hdependent, hcoenabled, -⟩
    have hlt := (List.getElem?_eq_some_iff.mp hS_j).1
    obtain rfl : j = 2 := by
      simp only [List.length_cons, List.length_nil] at hlt
      omega
    obtain rfl := Option.some.inj hS_j
    obtain rfl := Option.some.inj hu
    exact not_races_of_target rfl rfl (by decide) ⟨hdependent, hcoenabled⟩
  exact ⟨_, _, _, hreachable, hexpands, hrace,
    backtracksFor_of_lastRaceAt Coordinator.initial_atMain rfl rfl
      (fun s hs => Program.keepsPromises_of_promisesKept (hs.check_of_passes hstart hkept))
      hreachable hexpands hrace⟩

end McMini
