import McMini.Dpor.ClassicDpor
import McMini.Properties.Exploration

/-!
# What a step of the search does

A step which continues the search either expands the trace by one transition, or takes the
trace and the stack back to an earlier state, or empties the stack (`Search.Steps.cases`).
Along with an expansion the stack grows by one item, and of the items below at most the sets
of runners and the out transition of the former top change.
-/

namespace McMini

open Foundation

variable {source : ProcessSource} {config : Configuration} {callbacks : Finset Callback}
  {c c' : Coordinator} {stack stack' : List StackItem} {item : StackItem} {p : RunnerId} {n : ℕ}

/-! ### The coordinator -/

theorem executeRunner_trace (h : (executeRunner source p).run c = (.ok (), c')) :
    ∃ t, c'.getTrace = c.getTrace ++ [t] := by
  obtain ⟨contents, t, c₁, next, s', -, hcallback, -, -, -, rfl⟩ := executeRunner_eq_ok h
  have htrace := (observing_callback p contents (c.afterProcess p)).trace
  rw [hcallback] at htrace
  exact ⟨next, congrArg (· ++ [next]) htrace⟩

/-- Executing the trace again leaves the model alone. -/
theorem replay_currentProgramModel (source : ProcessSource) (ps : List RunnerId)
    (c : Coordinator) :
    ((replay source ps).run c).2.currentProgramModel = c.currentProgramModel := by
  induction ps generalizing c with
  | nil => rfl
  | cons p ps ih =>
    rw [replay, run_bind, processExecute_run]
    cases source c.executed p with
    | error e => rfl
    | ok contents => exact ih (c.afterProcess p)

/-- The coordinator whose model is restored, with a new process. -/
def Coordinator.restored (c : Coordinator) (n : ℕ) : Coordinator :=
  ⟨(c.currentProgramModel.restoreModelAtDepth n).1, c.systemAddressMapping, []⟩

theorem returnToDepth_run (source : ProcessSource) (n : ℕ) (c : Coordinator) :
    (returnToDepth source n).run c =
      match (c.currentProgramModel.restoreModelAtDepth n).2 with
      | .error e => (.error e, c.restored n)
      | .ok () =>
        if (c.restored n).getTrace.length ≠ n then
          (.error (.undefinedBehavior "assert(current_program_model.get_trace().count() == n)"),
            c.restored n)
        else (replay source ((c.restored n).getTrace.map (·.executor))).run (c.restored n) := by
  unfold returnToDepth
  simp only [run_bind, run_get]
  unfold Coordinator.restored Coordinator.getTrace
  rcases c.currentProgramModel.restoreModelAtDepth n with ⟨program, _ | _⟩
  · rfl
  · dsimp only
    by_cases hlen : program.trace.length = n
    · rw [if_neg (not_not.mpr hlen), if_neg (not_not.mpr hlen)]
      rfl
    · rw [if_pos hlen, if_pos hlen]
      rfl

/-- A return which succeeds restores the model. -/
theorem returnToDepth_currentProgramModel (h : (returnToDepth source n).run c = (.ok (), c')) :
    c'.currentProgramModel = (c.currentProgramModel.restoreModelAtDepth n).1 ∧
      n ≤ c.getTrace.length := by
  have htrace : (c.restored n).getTrace = c.getTrace.take n := rfl
  rw [returnToDepth_run] at h
  cases hresult : (c.currentProgramModel.restoreModelAtDepth n).2 with
  | error e =>
    rw [hresult] at h
    cases (Prod.mk.inj h).1
  | ok u =>
    rw [hresult] at h
    dsimp only at h
    by_cases hlen : (c.restored n).getTrace.length = n
    · have hreplay := replay_currentProgramModel source
        ((c.restored n).getTrace.map (·.executor)) (c.restored n)
      rw [if_neg (not_not.mpr hlen)] at h
      rw [h] at hreplay
      refine ⟨hreplay, ?_⟩
      rw [htrace, List.length_take] at hlen
      omega
    · rw [if_pos hlen] at h
      cases (Prod.mk.inj h).1

theorem returnToDepth_trace (h : (returnToDepth source n).run c = (.ok (), c')) :
    c'.getTrace = c.getTrace.take n ∧ n ≤ c.getTrace.length := by
  obtain ⟨hmodel, hn⟩ := returnToDepth_currentProgramModel h
  exact ⟨congrArg Program.trace hmodel, hn⟩

/-! ### The stack -/

/-- An item without its backtrack set. -/
def StackItem.withoutBacktrackSet (item : StackItem) : StackItem :=
  { item with backtrackSet := ∅ }

theorem insertIntoBacktrackSetUnlessCompleted_withoutBacktrackSet (item : StackItem)
    (p : RunnerId) :
    (item.insertIntoBacktrackSetUnlessCompleted p).withoutBacktrackSet =
      item.withoutBacktrackSet := by
  unfold StackItem.insertIntoBacktrackSetUnlessCompleted
  split_ifs <;> rfl

theorem insertBacktrackPoints_withoutBacktrackSet (item : StackItem) (e : List RunnerId) :
    (item.insertBacktrackPoints e).withoutBacktrackSet = item.withoutBacktrackSet := by
  have hfold : ∀ (l : List RunnerId) (item : StackItem),
      (l.foldl StackItem.insertIntoBacktrackSetUnlessCompleted item).withoutBacktrackSet =
        item.withoutBacktrackSet := by
    intro l
    induction l with
    | nil => exact fun _ => rfl
    | cons q l ih =>
      intro item
      rw [List.foldl_cons, ih, insertIntoBacktrackSetUnlessCompleted_withoutBacktrackSet]
  cases e with
  | nil => exact hfold _ item
  | cons q e =>
    rw [StackItem.insertBacktrackPoints]
    split_ifs
    · rfl
    · exact insertIntoBacktrackSetUnlessCompleted_withoutBacktrackSet item q

/-- Replacing an item by one which looks the same does not change what one sees. -/
theorem map_set_eq_map {β : Type} {f : StackItem → β} {i : ℕ} {item item' : StackItem}
    (hi : stack[i]? = some item) (hf : f item' = f item) :
    (stack.set i item').map f = stack.map f := by
  refine List.ext_getElem? fun j => ?_
  rw [List.getElem?_map, List.getElem?_map, List.getElem?_set]
  by_cases hij : i = j
  · subst hij
    have hlt : i < stack.length := (List.getElem?_eq_some_iff.mp hi).1
    rw [if_pos rfl, if_pos hlt, hi, Option.map_some, Option.map_some, hf]
  · rw [if_neg hij]

theorem stackAt_eq_ok {i : ℕ} : stackAt stack i = .ok item ↔ stack[i]? = some item := by
  unfold stackAt
  cases stack[i]? <;> simp

theorem stackBack_eq_ok : stackBack stack = .ok item ↔ stack.getLast? = some item := by
  unfold stackBack
  cases stack.getLast? <;> simp

theorem lastTransition_eq_ok {t : Transition} :
    c.lastTransition = .ok t ↔ c.getTrace.getLast? = some t := by
  unfold Coordinator.lastTransition
  cases c.getTrace.getLast? <;> simp

section BacktrackSets

variable {S_i next_sp : Transition} {i : ℕ} {b : Bool}

theorem dynamicallyUpdateBacktrackSetsAtIndex_map
    (h : dynamicallyUpdateBacktrackSetsAtIndex config stack S_i next_sp i p = .ok (b, stack')) :
    stack'.map (·.withoutBacktrackSet) = stack.map (·.withoutBacktrackSet) := by
  unfold dynamicallyUpdateBacktrackSetsAtIndex at h
  obtain ⟨pre_si, hpre, h⟩ := bind_eq_ok.mp h
  obtain ⟨race, -, h⟩ := bind_eq_ok.mp h
  cases race with
  | false =>
    obtain ⟨-, rfl⟩ := Prod.mk.inj (Except.ok.inj h)
    rfl
  | true =>
    obtain ⟨e, -, h⟩ := bind_eq_ok.mp h
    obtain ⟨-, rfl⟩ := Prod.mk.inj (Except.ok.inj h)
    exact map_set_eq_map (stackAt_eq_ok.mp hpre) (insertBacktrackPoints_withoutBacktrackSet _ _)

section Preserves

variable {Q : List StackItem → Prop}
  (hQ : ∀ {stack stack' : List StackItem} {S_i next_sp : Transition} {i : ℕ} {p : RunnerId}
    {b : Bool}, Q stack →
    dynamicallyUpdateBacktrackSetsAtIndex config stack S_i next_sp i p = .ok (b, stack') →
    Q stack')
include hQ

theorem updateForOthers_preserves {S_n : Transition} {top : ℕ} {thread_ids : List RunnerId}
    (h : updateForOthers config c S_n top thread_ids stack = .ok stack') (hstack : Q stack) :
    Q stack' := by
  induction thread_ids generalizing stack with
  | nil => exact Except.ok.inj h ▸ hstack
  | cons rid thread_ids ih =>
    obtain ⟨next_sp, -, h⟩ := bind_eq_ok.mp h
    obtain ⟨⟨b, stack₁⟩, hstack₁, h⟩ := bind_eq_ok.mp h
    exact ih h (hQ hstack hstack₁)

theorem updateForLatest_preserves
    (h : updateForLatest config c next_sp p i stack = .ok stack') (hstack : Q stack) :
    Q stack' := by
  induction i generalizing stack with
  | zero => exact Except.ok.inj h ▸ hstack
  | succ i ih =>
    rw [updateForLatest] at h
    cases ht : c.getTrace[i]? with
    | none =>
      rw [ht] at h
      cases h
    | some S_i =>
      rw [ht] at h
      obtain ⟨⟨stop, stack₁⟩, hstack₁, h⟩ := bind_eq_ok.mp h
      cases stop with
      | true => exact Except.ok.inj h ▸ hQ hstack hstack₁
      | false => exact ih h (hQ hstack hstack₁)

/-- What every update at an index preserves, the whole update preserves. -/
theorem dynamicallyUpdateBacktrackSets_preserves
    (h : dynamicallyUpdateBacktrackSets config c stack = .ok stack') (hstack : Q stack) :
    Q stack' := by
  unfold dynamicallyUpdateBacktrackSets at h
  obtain ⟨S_n, -, h⟩ := bind_eq_ok.mp h
  obtain ⟨stack₁, hothers, h⟩ := bind_eq_ok.mp h
  obtain ⟨next_sp, -, h⟩ := bind_eq_ok.mp h
  exact updateForLatest_preserves hQ h (updateForOthers_preserves hQ hothers hstack)

end Preserves

/-- Updating the backtrack sets changes nothing else. -/
theorem dynamicallyUpdateBacktrackSets_map
    (h : dynamicallyUpdateBacktrackSets config c stack = .ok stack') :
    stack'.map (·.withoutBacktrackSet) = stack.map (·.withoutBacktrackSet) :=
  dynamicallyUpdateBacktrackSets_preserves
    (Q := fun st => st.map (·.withoutBacktrackSet) = stack.map (·.withoutBacktrackSet))
    (fun hst hupdate => (dynamicallyUpdateBacktrackSetsAtIndex_map hupdate).trans hst) h rfl

end BacktrackSets

/-- What the item of a state records when the transition leaves the state. -/
def StackItem.leaving (item : StackItem) (t : Transition) : StackItem :=
  ((item.setOutTransition (.valid t)).insertIntoSleepSet t.executor).markSearched t.executor

/-- Growing the stack, when it succeeds, finds the stack one item behind the trace and adds
the item for the last transition. -/
theorem growStackAfterRunning_eq_ok (h : growStackAfterRunning config c stack = .ok stack') :
    ∃ init s_n t_n cv clocks enabled asleep, stack = init ++ [s_n] ∧
      c.getTrace.getLast? = some t_n ∧ c.getTrace.length = stack.length ∧
      accumulateMaxClockVectorAgainst config t_n stack = .ok cv ∧
      s_n.withClockVector t_n.executor (cv.set t_n.executor stack.length) = .ok clocks ∧
      c.currentProgramModel.getEnabledRunners = .ok enabled ∧
      ((inOrder s_n.sleepSet).filterM fun rid => do
        return !areDependent config.dependencyRelation (← c.pendingTransitionFor rid) t_n) =
          .ok asleep ∧
      stack' = init ++ [s_n.leaving t_n, {
        cv := cv.set t_n.executor stack.length
        perRunnerClocks := clocks
        outTransition := .valid t_n
        sleepSet := asleep.toFinset
        enabledRunners := enabled.toFinset }] := by
  unfold growStackAfterRunning at h
  by_cases hlen : c.getDepthIntoProgram = stack.length
  · rw [if_neg (not_not.mpr hlen)] at h
    obtain ⟨t_n, ht, h⟩ := bind_eq_ok.mp h
    obtain ⟨cv, hcv, h⟩ := bind_eq_ok.mp h
    obtain ⟨s_n, hback, h⟩ := bind_eq_ok.mp h
    obtain ⟨clocks, hclocks, h⟩ := bind_eq_ok.mp h
    obtain ⟨enabled, henabled, h⟩ := bind_eq_ok.mp h
    obtain ⟨asleep, hasleep, h⟩ := bind_eq_ok.mp h
    obtain ⟨init, rfl⟩ := List.getLast?_eq_some_iff.mp (stackBack_eq_ok.mp hback)
    rw [hlen] at hclocks h
    rw [List.dropLast_concat] at h
    exact ⟨init, s_n, t_n, cv, clocks, enabled, asleep, rfl, lastTransition_eq_ok.mp ht, hlen,
      hcv, hclocks, henabled, hasleep, (Except.ok.inj h).symm⟩
  · rw [if_pos hlen] at h
    cases h

/-- The search returns to a state only if a runner is left to be explored from it. -/
theorem backtrackSet_ne_empty_of_popExplored {init : List StackItem}
    (h : Search.popExplored stack = init ++ [item]) : item.backtrackSet ≠ ∅ := by
  unfold Search.popExplored at h
  intro hempty
  have hnot : ∀ l : List StackItem, l.rdropWhile (·.backtrackSetEmpty) ≠ init ++ [item] := by
    intro l
    induction l using List.reverseRecOn with
    | nil => simp
    | append_singleton l item' ih =>
      rw [List.rdropWhile_concat]
      split_ifs with hitem'
      · exact ih
      · intro heq
        obtain rfl := List.singleton_inj.mp (List.append_inj' heq rfl).2
        exact hitem' (decide_eq_true hempty)
  exact hnot stack h

theorem popExplored_prefix (stack : List StackItem) : Search.popExplored stack <+: stack :=
  List.rdropWhile_prefix _ _

/-! ### The search -/

namespace Search

theorem continueDporByExpandingTraceWith_eq_ok
    (h : (continueDporByExpandingTraceWith source config p stack).run c = (.ok stack', c')) :
    (executeRunner source p).run c = (.ok (), c') ∧
      ∃ grown, growStackAfterRunning config c' stack = .ok grown ∧
        dynamicallyUpdateBacktrackSets config c' grown = .ok stack' := by
  unfold continueDporByExpandingTraceWith at h
  rw [run_bind] at h
  rcases hrun : (executeRunner source p).run c with ⟨_ | _, c₁⟩
  · rw [hrun] at h
    cases (Prod.mk.inj h).1
  · rw [hrun] at h
    have h' : (growStackAfterRunning config c₁ stack >>= dynamicallyUpdateBacktrackSets config c₁,
        c₁) = ((.ok stack', c') : Except Failure (List StackItem) × Coordinator) := by
      rw [← h]
      simp only [run_bind, run_get]
      cases growStackAfterRunning config c₁ stack <;> rfl
    obtain ⟨hstack, rfl⟩ := Prod.mk.inj h'
    exact ⟨rfl, bind_eq_ok.mp hstack⟩

/-- What a step which continues the search has done. -/
inductive Move (source : ProcessSource) (config : Configuration) (s s' : Search) : Prop
  | explore (init : List StackItem) (back : StackItem)
      (hphase : s.phase = .exploration ∧ s'.phase = .exploration)
      (hstack : s.stack = init ++ [back]) (henabled : back.enabledRunners ≠ ∅)
      (hlimit : s.stack.length < config.maximumTotalExecutionDepth)
      (hrun : (continueDporByExpandingTraceWith source config back.getFirstEnabledRunner
        s.stack).run s.coordinator = (.ok s'.stack, s'.coordinator))
  | finish (hphase : s.phase = .exploration ∧ s'.phase = .exploration)
      (hpop : popExplored s.stack = []) (hstack : s'.stack = [])
      (hcoordinator : s'.coordinator = s.coordinator)
  | goBack (init : List StackItem) (back : StackItem)
      (hphase : s.phase = .exploration ∧ s'.phase = .backtrack)
      (hpop : popExplored s.stack = init ++ [back])
      (hrun : (returnToDepth source init.length).run s.coordinator = (.ok (), s'.coordinator))
      (hstack : s'.stack = init ++ [afterReturn init.length back])
  | follow (init : List StackItem) (back : StackItem) (rid : RunnerId)
      (hphase : s.phase = .backtrack ∧ s'.phase = .exploration)
      (hstack : s.stack = init ++ [back]) (hrid : rid ∈ back.backtrackSet)
      (hfirst : ∀ q ∈ back.backtrackSet, rid ≤ q)
      (hrun : (continueDporByExpandingTraceWith source config rid
        (init ++ [back.markSearched rid])).run s.coordinator = (.ok s'.stack, s'.coordinator))

section Steps

variable {s s' : Search}

/-- After an exception the search does not continue. -/
theorem catching_ne_continues (clauses : List Callback) (e : Failure) :
    s.catching callbacks clauses e ≠ .continues s' := by
  unfold catching
  cases callbackFor e with
  | none => exact fun h => nomatch h
  | some callback =>
    dsimp only
    split_ifs
    · exact fun h => nomatch h
    · exact fun h => nomatch h

theorem explore_move {init : List StackItem} {back : StackItem}
    (hphase : s.phase = .exploration) (hstack : s.stack = init ++ [back])
    (henabled : back.enabledRunners ≠ ∅)
    (h : s.explore source config callbacks back = .continues s') : Move source config s s' := by
  unfold explore at h
  by_cases hlimit : config.maximumTotalExecutionDepth ≤ s.stack.length
  · rw [if_pos hlimit] at h
    cases h
  · rw [if_neg hlimit] at h
    dsimp only at h
    rcases hrun : (continueDporByExpandingTraceWith source config back.getFirstEnabledRunner
      s.stack).run s.coordinator with ⟨e | stack, c⟩
    · rw [hrun] at h
      exact absurd h (catching_ne_continues _ _)
    · rw [hrun] at h
      dsimp only at h
      cases hcheck : checkNextOperation back.getFirstEnabledRunner c with
      | error e =>
        rw [hcheck] at h
        exact absurd h (catching_ne_continues _ _)
      | ok u =>
        rw [hcheck] at h
        obtain rfl := Progress.continues.inj h
        exact .explore init back ⟨hphase, hphase⟩ hstack henabled (Nat.lt_of_not_le hlimit) hrun

/-- Completing a trace invokes callbacks only. -/
theorem completeTrace_eq_ok {s₁ : Search} (h : s.completeTrace callbacks = .ok s₁) :
    s₁.phase = s.phase ∧ s₁.coordinator = s.coordinator ∧ s₁.stack = s.stack := by
  have hinvoke : ∀ (s : Search) (callback : Callback),
      (s.invoke callbacks callback none).phase = s.phase ∧
        (s.invoke callbacks callback none).coordinator = s.coordinator ∧
        (s.invoke callbacks callback none).stack = s.stack := by
    intro s callback
    unfold invoke
    split_ifs
    · exact ⟨rfl, rfl, rfl⟩
    · exact ⟨rfl, rfl, rfl⟩
  obtain ⟨hp, hc, hs⟩ := hinvoke s .traceCompleted
  unfold completeTrace at h
  dsimp only at h
  split_ifs at h with hset
  · obtain ⟨deadlock, -, h⟩ := bind_eq_ok.mp h
    cases deadlock with
    | true =>
      obtain ⟨hp', hc', hs'⟩ := hinvoke (s.invoke callbacks .traceCompleted none) .deadlock
      rw [← Except.ok.inj h]
      exact ⟨hp'.trans hp, hc'.trans hc, hs'.trans hs⟩
    | false =>
      rw [← Except.ok.inj h]
      exact ⟨hp, hc, hs⟩
  · rw [← Except.ok.inj h]
    exact ⟨hp, hc, hs⟩

theorem returnToBacktrackPoint_move (hphase : s.phase = .exploration)
    (h : s.returnToBacktrackPoint source callbacks = .continues s') : Move source config s s' := by
  unfold returnToBacktrackPoint at h
  cases hcomplete : s.completeTrace callbacks with
  | error e =>
    rw [hcomplete] at h
    cases h
  | ok s₁ =>
    obtain ⟨hp, hc, hs⟩ := completeTrace_eq_ok hcomplete
    rw [hcomplete] at h
    dsimp only at h
    rw [hc, hs] at h
    rcases List.eq_nil_or_concat' (popExplored s.stack) with hnil | ⟨init, back, hpop⟩
    · rw [hnil] at h
      obtain rfl := Progress.continues.inj h
      exact .finish ⟨hphase, hp.trans hphase⟩ hnil rfl rfl
    · have hlen : (init ++ [back]).length - 1 = init.length := by simp
      rw [hpop, List.getLast?_concat, List.dropLast_concat, hlen] at h
      dsimp only at h
      rcases hrun : (returnToDepth source init.length).run s.coordinator with ⟨e | _, c⟩
      · rw [hrun] at h
        exact absurd h (catching_ne_continues _ _)
      · rw [hrun] at h
        obtain rfl := Progress.continues.inj h
        exact .goBack init back ⟨hphase, rfl⟩ hpop hrun rfl

theorem followBacktrack_move {init : List StackItem} {back : StackItem}
    (hphase : s.phase = .backtrack) (hstack : s.stack = init ++ [back])
    (h : s.followBacktrack source config callbacks back = .continues s') :
    Move source config s s' := by
  unfold followBacktrack StackItem.backtrackSetPopFirst at h
  cases hmin : back.backtrackSet.min with
  | top =>
    rw [hmin] at h
    cases h
  | coe rid =>
    rw [hmin, hstack, List.dropLast_concat] at h
    dsimp only at h
    rcases hrun : (continueDporByExpandingTraceWith source config rid
      (init ++ [back.markSearched rid])).run s.coordinator with ⟨e | stack, c⟩
    · simp only [hrun] at h
      exact absurd h (catching_ne_continues _ _)
    · simp only [hrun] at h
      obtain rfl := Progress.continues.inj h
      exact .follow init back rid ⟨hphase, rfl⟩ hstack (Finset.mem_of_min hmin)
        (fun q hq => Finset.min_le_of_eq hq hmin) hrun

/-- A step which continues the search is one of the four moves. -/
theorem Steps.move (h : Steps source config callbacks s s') : Move source config s s' := by
  unfold Steps step at h
  rcases List.eq_nil_or_concat' s.stack with hnil | ⟨init, back, hstack⟩
  · rw [hnil] at h
    cases h
  · have hlast : s.stack.getLast? = some back := by rw [hstack, List.getLast?_concat]
    rw [hlast] at h
    dsimp only at h
    cases hphase : s.phase with
    | exploration =>
      rw [hphase] at h
      dsimp only at h
      by_cases henabled : back.enabledRunners = ∅
      · have hnone : back.hasEnabledRunners = false := by simp [StackItem.hasEnabledRunners, henabled]
        rw [hnone] at h
        exact returnToBacktrackPoint_move hphase h
      · have hsome : back.hasEnabledRunners = true := by simp [StackItem.hasEnabledRunners, henabled]
        rw [hsome] at h
        exact explore_move hphase hstack henabled h
    | backtrack =>
      rw [hphase] at h
      exact followBacktrack_move hphase hstack h

end Steps

end Search

end McMini
