import McMini.Foundation.Branches
import McMini.Properties.Termination

/-!
# Completed traces

Each time no runner is enabled, `verify_using` invokes the callback for a completed trace and
goes back to a state with a backtrack point. The traces which it reports are maximal, and each
of them lies on a branch of its own: no schedule is reported twice, and none is the beginning
of another one (`completed_traces_diverge`).

The search is a walk in the tree of schedules, whose current word is the schedule of the trace.
What has been tried at a position are the done runners of the item there.
-/

namespace McMini

open Search Foundation

variable {source : ProcessSource} {config : Configuration} {callbacks : Finset Callback}
  {c c' : Coordinator} {s s' : Search} {hs : List ItemHistory} {stack stack' : List StackItem}

/-- The runners in the order in which they were executed. -/
def Coordinator.schedule (c : Coordinator) : List RunnerId := c.getTrace.map (·.executor)

/-- The calls of the callback for completed traces. -/
def Search.completed (s : Search) : List Invocation :=
  s.invocations.filter (·.callback = .traceCompleted)

/-- The runners which have been explored from the item at the position. -/
def triedAt (stack : List StackItem) (n : ℕ) : Set RunnerId :=
  {q | ∃ item, stack[n]? = some item ∧ q ∈ item.doneSet}

/-- A run of enabled runners, after which none is enabled. -/
structure Program.Maximal (p : Program) : Prop where
  executable : ∀ i t, p.trace[i]? = some t → p.EnabledAtDepth i t.executor
  ended : ∀ q, ¬ p.EnabledNow q

/-! ### Reports -/

/-- What is reported when the current trace is completed. -/
def Search.completedNow (callbacks : Finset Callback) (s : Search) : List Invocation :=
  if .traceCompleted ∈ callbacks then
    s.completed ++ [⟨.traceCompleted, s.coordinator, s.stats, none⟩]
  else s.completed

theorem Search.completed_invoke (callback : Callback) (exception : Option Failure) :
    (s.invoke callbacks callback exception).completed =
      if callback ∈ callbacks ∧ callback = .traceCompleted then
        s.completed ++ [⟨callback, s.coordinator, s.stats, exception⟩]
      else s.completed := by
  unfold Search.invoke
  by_cases hset : callback ∈ callbacks
  · rw [if_pos hset, completed, List.filter_append, ← completed]
    by_cases hcallback : callback = .traceCompleted
    · rw [if_pos ⟨hset, hcallback⟩, List.filter_cons_of_pos (by simpa using hcallback),
        List.filter_nil]
    · rw [if_neg fun h => hcallback h.2, List.filter_cons_of_neg (by simpa using hcallback),
        List.filter_nil, List.append_nil]
  · rw [if_neg hset, if_neg fun h => hset h.1]

theorem Search.completed_completeTrace {s₁ : Search} (h : s.completeTrace callbacks = .ok s₁) :
    s₁.completed = s.completedNow callbacks := by
  have hreported : (s.invoke callbacks .traceCompleted none).completed =
      s.completedNow callbacks := by
    rw [completed_invoke, completedNow]
    simp only [and_true]
  have hdeadlock : ((s.invoke callbacks .traceCompleted none).invoke callbacks .deadlock
      none).completed = s.completedNow callbacks := by
    rw [completed_invoke, if_neg fun h => nomatch h.2]
    exact hreported
  unfold completeTrace at h
  dsimp only at h
  split_ifs at h with hset
  · obtain ⟨deadlock, -, h⟩ := bind_eq_ok.mp h
    cases deadlock with
    | true => rw [← Except.ok.inj h, hdeadlock]
    | false => rw [← Except.ok.inj h, hreported]
  · rw [← Except.ok.inj h, hreported]

/-- Expanding the trace reports nothing. -/
theorem Search.explore_reports {back : StackItem}
    (h : s.explore source config callbacks back = .continues s') :
    (continueDporByExpandingTraceWith source config back.getFirstEnabledRunner s.stack).run
        s.coordinator = (.ok s'.stack, s'.coordinator) ∧
      s'.completed = s.completed := by
  unfold Search.explore at h
  split_ifs at h
  dsimp only at h
  rcases hrun : (continueDporByExpandingTraceWith source config back.getFirstEnabledRunner
    s.stack).run s.coordinator with ⟨e | stack, c⟩
  · rw [hrun] at h
    exact absurd h (catching_ne_continues _ _)
  · rw [hrun] at h
    dsimp only at h
    cases hcheck : checkNextOperation back.getFirstEnabledRunner c with
    | error e =>
      rw [hcheck] at h
      exact absurd h (catching_ne_continues _ _)
    | ok u =>
      rw [hcheck] at h
      rw [← Progress.continues.inj h]
      exact ⟨rfl, rfl⟩

theorem Search.followBacktrack_reports {back : StackItem}
    (h : s.followBacktrack source config callbacks back = .continues s') :
    s'.completed = s.completed := by
  unfold Search.followBacktrack at h
  cases hpop : back.backtrackSetPopFirst with
  | error e =>
    rw [hpop] at h
    cases h
  | ok popped =>
    rw [hpop] at h
    dsimp only at h
    rcases hrun : (continueDporByExpandingTraceWith source config popped.1
      (s.stack.dropLast ++ [popped.2])).run s.coordinator with ⟨e | stack, c⟩
    · rw [hrun] at h
      exact absurd h (catching_ne_continues _ _)
    · rw [hrun] at h
      rw [← Progress.continues.inj h]
      rfl

/-- A completed trace is reported. -/
theorem Search.returnToBacktrackPoint_reports
    (h : s.returnToBacktrackPoint source callbacks = .continues s') :
    s'.completed = s.completedNow callbacks ∧ (s'.stack = [] ∨ s'.phase = .backtrack) := by
  unfold returnToBacktrackPoint at h
  cases hcomplete : s.completeTrace callbacks with
  | error e =>
    rw [hcomplete] at h
    cases h
  | ok s₁ =>
    have hreported := completed_completeTrace hcomplete
    rw [hcomplete] at h
    dsimp only at h
    rcases List.eq_nil_or_concat' (popExplored s₁.stack) with hnil | ⟨init, back, hpop⟩
    · rw [hnil] at h
      rw [← Progress.continues.inj h]
      exact ⟨hreported, .inl rfl⟩
    · rw [hpop, List.getLast?_concat] at h
      dsimp only at h
      rcases hrun : (returnToDepth source ((init ++ [back]).length - 1)).run s₁.coordinator
        with ⟨e | _, c⟩
      · rw [hrun] at h
        exact absurd h (catching_ne_continues _ _)
      · rw [hrun] at h
        rw [← Progress.continues.inj h]
        exact ⟨hreported, .inr rfl⟩

/-- What a step reports: an expansion nothing, a step back the completed trace. -/
theorem Search.Steps.reports (h : Steps source config callbacks s s') :
    (s.Expands source config s'.stack s'.coordinator ∧ s'.completed = s.completed) ∨
    (s.phase = .exploration ∧ (∃ init back, s.stack = init ++ [back] ∧ back.enabledRunners = ∅) ∧
      s'.completed = s.completedNow callbacks ∧ (s'.stack = [] ∨ s'.phase = .backtrack)) := by
  obtain ⟨init, back, hstack⟩ := List.eq_nil_or_concat' s.stack |>.resolve_left h.stack_ne_nil
  have hlast : s.stack.getLast? = some back := by rw [hstack, List.getLast?_concat]
  have hstep := h
  unfold Steps Search.step at hstep
  rw [hlast] at hstep
  dsimp only at hstep
  cases hphase : s.phase with
  | exploration =>
    rw [hphase] at hstep
    dsimp only at hstep
    by_cases henabled : back.enabledRunners = ∅
    · rw [if_neg (by simpa [hasEnabledRunners_iff] using henabled)] at hstep
      exact .inr ⟨rfl, ⟨init, back, hstack, henabled⟩, returnToBacktrackPoint_reports hstep⟩
    · rw [if_pos (hasEnabledRunners_iff.mpr henabled)] at hstep
      obtain ⟨hrun, hreports⟩ := explore_reports hstep
      exact .inl ⟨.explore init back hphase hstack henabled hrun, hreports⟩
  | backtrack =>
    rw [hphase] at hstep
    refine .inl ⟨?_, followBacktrack_reports hstep⟩
    cases followBacktrack_move hphase hstack hstep with
    | follow init back rid _ hstack hrid _ hrun =>
      exact .follow init back rid hphase hstack hrid hrun
    | explore _ _ hphase' | finish hphase' | goBack _ _ hphase' =>
      exact absurd (hphase.symm.trans hphase'.1) (by decide)

/-! ### The walk -/

theorem Coordinator.length_schedule (c : Coordinator) : c.schedule.length = c.getTrace.length :=
  List.length_map ..

/-- What has been tried only depends on the done sets. -/
theorem triedAt_congr (h : stack.map (·.doneSet) = stack'.map (·.doneSet)) (n : ℕ) :
    triedAt stack n = triedAt stack' n := by
  have hget : stack[n]?.map (·.doneSet) = stack'[n]?.map (·.doneSet) := by
    rw [← List.getElem?_map, ← List.getElem?_map, h]
  have hmem : ∀ (stack : List StackItem) q,
      q ∈ triedAt stack n ↔ ∃ done ∈ stack[n]?.map (·.doneSet), q ∈ done := by
    intro stack q
    simp [triedAt]
  ext q
  rw [hmem, hmem, hget]

/-- Expanding the trace tries the runner at the top, and nothing else is forgotten. -/
theorem Expansion.triedAt_subset {r₀ : ℕ} {runners : List ℕ} {init : List StackItem}
    {back new : StackItem} {t : Transition}
    (h : Expansion config r₀ runners c init back t new stack' c') {n : ℕ} (hn : n ≤ init.length) :
    triedAt (init ++ [back]) n ⊆ triedAt stack' n := by
  have hmap := congrArg (List.map StackItem.doneSet) (dynamicallyUpdateBacktrackSets_map h.updated)
  rw [List.map_map, List.map_map] at hmap
  have hdone : stack'.map (·.doneSet) = (init ++ [back.leaving t, new]).map (·.doneSet) := hmap
  rw [triedAt_congr hdone]
  rintro q ⟨item, hitem, hq⟩
  rcases Nat.lt_or_eq_of_le hn with hlt | rfl
  · refine ⟨item, ?_, hq⟩
    rw [List.getElem?_append_left hlt] at hitem ⊢
    exact hitem
  · rw [List.getElem?_append_right le_rfl, Nat.sub_self] at hitem
    obtain rfl := Option.some.inj hitem
    refine ⟨back.leaving t, ?_, Finset.mem_insert_of_mem hq⟩
    rw [List.getElem?_append_right le_rfl, Nat.sub_self]
    rfl

/-- The runner which the trace has at a position has been tried there. -/
theorem StackInvariant.mem_triedAt {r₀ : ℕ} {runners : List ℕ}
    (h : StackInvariant r₀ runners c stack hs) {n : ℕ} {q : RunnerId}
    (hq : c.schedule[n]? = some q) : q ∈ triedAt stack n := by
  rw [Coordinator.schedule, List.getElem?_map] at hq
  obtain ⟨t, ht, rfl⟩ := Option.map_eq_some_iff.mp hq
  have hlt : n < c.getTrace.length := (List.getElem?_eq_some_iff.mp ht).1
  have hlength := h.length
  have hhistories := h.histories
  have hitem : stack[n]? = some stack[n] := List.getElem?_eq_getElem (by omega)
  have hhist : hs[n]? = some hs[n] := List.getElem?_eq_getElem (by omega)
  have hinvariant := h.items n _ _ hitem hhist
  refine ⟨_, hitem, (hinvariant.done _).mpr (List.mem_map_of_mem ?_)⟩
  refine List.mem_append_right _ ?_
  rw [hinvariant.current]
  exact Option.mem_toList.mpr ht

/-- The model at the end of a completed trace. -/
theorem StackInvariant.maximal {r₀ : ℕ} {runners : List ℕ} {init : List StackItem}
    {back : StackItem} (h : StackInvariant r₀ runners c stack hs) (hstack : stack = init ++ [back])
    (hnone : back.enabledRunners = ∅) : c.currentProgramModel.Maximal := by
  obtain ⟨hist, hitem⟩ := h.last hstack
  refine ⟨h.layered.executable, fun q henabled => ?_⟩
  have hmem := (hitem.mem_enabledRunners_iff h.layered le_rfl).mpr
    (h.layered.enabledNow_iff.mp henabled)
  rw [hnone] at hmem
  exact Finset.notMem_empty q hmem

/-- What the reports are while the search goes on. -/
structure ReportInvariant (callbacks : Finset Callback) (s : Search) : Prop where
  diverge : (s.completed.map (·.coordinator.schedule)).Pairwise Diverge
  maximal : ∀ report ∈ s.completed, report.coordinator.currentProgramModel.Maximal
  walk : s.stack ≠ [] → Enumerates s.coordinator.schedule (triedAt s.stack)
    (s.completed.map (·.coordinator.schedule))
  none : .traceCompleted ∉ callbacks → s.completed = []

section Step

variable {r₀ : ℕ}

/-- Expanding the trace. -/
theorem ReportInvariant.expand (h : ReportInvariant callbacks s)
    (hinvariant : SearchInvariant r₀ s hs)
    (hexpands : s.Expands source config s'.stack s'.coordinator)
    (hcompleted : s'.completed = s.completed) : ReportInvariant callbacks s' := by
  have hne := hexpands.stack_ne_nil
  obtain ⟨runners, init, back, t, new, hstack, hstackInvariant, -, hdone, hexpansion⟩ :=
    hinvariant.expands hexpands
  have hlength : s.coordinator.schedule.length = init.length := by
    have hlength := hstackInvariant.length
    rw [hstack, List.length_append, List.length_singleton] at hlength
    rw [Coordinator.length_schedule]
    omega
  have hschedule : s'.coordinator.schedule = s.coordinator.schedule ++ [t.executor] := by
    rw [Coordinator.schedule, hexpansion.trace, List.map_append]
    rfl
  refine ⟨hcompleted ▸ h.diverge, hcompleted ▸ h.maximal, fun _ => ?_,
    fun hset => hcompleted.trans (h.none hset)⟩
  rw [hcompleted, hschedule]
  refine (h.walk hne).extend ?_ fun n hn => ?_
  · rintro ⟨item, hitem, hmem⟩
    rw [hstack, hlength, List.getElem?_append_right le_rfl, Nat.sub_self] at hitem
    obtain rfl := Option.some.inj hitem
    exact hdone hmem
  · rw [hstack]
    exact hexpansion.triedAt_subset (hlength ▸ hn)

/-- While the trace is explored, nothing has been tried at its end. -/
theorem SearchInvariant.not_mem_triedAt (h : SearchInvariant r₀ s hs)
    (hphase : s.phase = .exploration) (q : RunnerId) :
    q ∉ triedAt s.stack s.coordinator.schedule.length := by
  obtain ⟨runners, hstack⟩ := h.stack
  rintro ⟨item, hitem, hq⟩
  rw [Coordinator.length_schedule] at hitem
  rcases List.eq_nil_or_concat' s.stack with hnil | ⟨init, back, heq⟩
  · rw [hnil] at hitem
    cases hitem
  · have hlength := hstack.length
    rw [heq, List.length_append, List.length_singleton] at hlength
    rw [heq, ← Nat.add_right_cancel hlength, List.getElem?_append_right le_rfl, Nat.sub_self]
      at hitem
    obtain rfl := Option.some.inj hitem
    rw [h.fresh hphase init back heq] at hq
    exact Finset.notMem_empty q hq

/-- The walk when the search goes back. -/
theorem ReportInvariant.goBack (h : ReportInvariant callbacks s)
    (hinvariant : SearchInvariant r₀ s hs) (hphase : s.phase = .exploration)
    {init init' : List StackItem} {back back' : StackItem} (hstack : s.stack = init ++ [back])
    (hnone : back.enabledRunners = ∅) (hpop : popExplored s.stack = init' ++ [back'])
    (hrun : (returnToDepth source init'.length).run s.coordinator = (.ok (), s'.coordinator)) :
    Enumerates s'.coordinator.schedule (triedAt (init' ++ [back']))
      ((s.completedNow callbacks).map (·.coordinator.schedule)) := by
  obtain ⟨runners, hstackInvariant⟩ := hinvariant.stack
  have hpre : init' ++ [back'] <+: s.stack := hpop ▸ popExplored_prefix s.stack
  have hlt : init'.length < s.coordinator.schedule.length := by
    have hle := (popExplored_prefix_init hinvariant hstack hnone).length_le
    have hlength := hstackInvariant.length
    rw [hpop, List.length_append, List.length_singleton] at hle
    rw [hstack, List.length_append, List.length_singleton] at hlength
    rw [Coordinator.length_schedule]
    omega
  have hschedule : s'.coordinator.schedule = s.coordinator.schedule.take init'.length := by
    rw [Coordinator.schedule, (returnToDepth_trace hrun).1, List.map_take]
    rfl
  unfold Search.completedNow
  by_cases hset : .traceCompleted ∈ callbacks
  · have hne : s.stack ≠ [] := by rw [hstack]; simp
    rw [if_pos hset, hschedule, List.map_append, List.map_singleton]
    refine (h.walk hne).complete (hinvariant.not_mem_triedAt hphase) hlt
      (fun q hq => hstackInvariant.mem_triedAt hq) ?_
    rintro i hi q ⟨item, hitem, hq⟩
    refine ⟨item, ?_, hq⟩
    obtain ⟨rest, hrest⟩ := hpre
    rw [← hrest, List.getElem?_append_left (by simp; omega)] at hitem
    exact hitem
  · rw [if_neg hset, h.none hset]
    exact enumerates_nil _ _

/-- The reports after the current trace has been completed. -/
theorem ReportInvariant.completedNow (h : ReportInvariant callbacks s)
    (hinvariant : SearchInvariant r₀ s hs) (hphase : s.phase = .exploration)
    {init : List StackItem} {back : StackItem} (hstack : s.stack = init ++ [back])
    (hnone : back.enabledRunners = ∅) :
    ((s.completedNow callbacks).map (·.coordinator.schedule)).Pairwise Diverge ∧
      ∀ report ∈ s.completedNow callbacks, report.coordinator.currentProgramModel.Maximal := by
  have hne : s.stack ≠ [] := by rw [hstack]; simp
  obtain ⟨runners, hstackInvariant⟩ := hinvariant.stack
  unfold Search.completedNow
  by_cases hset : .traceCompleted ∈ callbacks
  · rw [if_pos hset]
    refine ⟨?_, fun report hreport => ?_⟩
    · rw [List.map_append, List.map_singleton]
      exact (h.walk hne).pairwise_concat (hinvariant.not_mem_triedAt hphase)
    · rcases List.mem_append.mp hreport with hold | hnew
      · exact h.maximal report hold
      · rw [List.mem_singleton.mp hnew]
        exact hstackInvariant.maximal hstack hnone
  · rw [if_neg hset]
    exact ⟨h.diverge, h.maximal⟩

/-- A step keeps what the reports are. -/
theorem ReportInvariant.step (h : ReportInvariant callbacks s)
    (hinvariant : SearchInvariant r₀ s hs) (hkept : RootKept s) (hstep : Steps source config callbacks s s') :
    ReportInvariant callbacks s' := by
  rcases hstep.reports with ⟨hexpands, hcompleted⟩ |
    ⟨hphase, ⟨init, back, hstack, hnone⟩, hcompleted, hends⟩
  · exact h.expand hinvariant hexpands hcompleted
  · obtain ⟨hdiverge, hmaximal⟩ := h.completedNow hinvariant hphase hstack hnone
    rw [← hcompleted] at hdiverge hmaximal
    have hunset : .traceCompleted ∉ callbacks → s'.completed = [] := by
      intro hset
      rw [hcompleted, Search.completedNow, if_neg hset, h.none hset]
    rcases hends with hnil | hback
    · exact ⟨hdiverge, hmaximal, fun hne => absurd hnil hne, hunset⟩
    · refine ⟨hdiverge, hmaximal, fun _ => ?_, hunset⟩
      cases hstep.move with
      | goBack init' back' _ hpop hrun hstack' =>
        have hinit := hkept.searched.ne_nil hpop
        have hafter : afterReturn init'.length back' = back' :=
          if_neg fun hzero => hinit (List.length_eq_zero_iff.mp hzero)
        rw [hstack', hafter, hcompleted]
        exact h.goBack hinvariant hphase hstack hnone hpop hrun
      | explore _ _ hphase' | finish hphase' | follow _ _ _ hphase' =>
        exact absurd (hback.symm.trans hphase'.2) (by decide)

end Step

/-- **Completed traces lie on different branches.** Whatever the search has done, the schedules
of the traces which it has reported are pairwise different, and none is the beginning of
another one. Each trace is a run of enabled runners, after which none is enabled. -/
theorem completed_traces_diverge (hc : c.Initial)
    (h : Search.Reachable source config callbacks c s) :
    (s.completed.map (·.coordinator.schedule)).Pairwise Diverge ∧
      ∀ report ∈ s.completed, report.coordinator.currentProgramModel.Maximal := by
  have hreports : ReportInvariant callbacks s := by
    obtain ⟨s₀, hstart, hrun⟩ := h
    induction hrun with
    | refl =>
      obtain ⟨enabled, -, hs⟩ := bind_eq_ok.mp hstart
      obtain rfl := Except.ok.inj hs
      refine ⟨?_, ?_, fun _ => ?_, fun _ => rfl⟩
      · exact .nil
      · exact fun report hreport => absurd hreport List.not_mem_nil
      · exact enumerates_nil _ _
    | tail hrun hstep ih =>
      have hreachable : Search.Reachable source config callbacks c _ := ⟨s₀, hstart, hrun⟩
      obtain ⟨hs, htraced⟩ := hreachable.traced
      exact ih.step (searchInvariant_of_traced hc htraced hstep.stack_ne_nil)
        (rootKept_of_reachable hreachable) hstep
  exact ⟨hreports.diverge, hreports.maximal⟩

/-- Once thread `0` has posted, either of the threads may be first to lock the mutex. The search
reports both traces. -/
theorem completed_traces_diverge_racing : ∃ s,
    Search.Reachable racing {} {.traceCompleted} atTwoRacing s ∧
      s.completed.map (·.coordinator.schedule) = [[0, 0], [0, 1, 1]] ∧
      (s.completed.map (·.coordinator.schedule)).Pairwise Diverge ∧
      ∀ report ∈ s.completed, report.coordinator.currentProgramModel.Maximal := by
  exact ⟨searchOfTwoRacing 6, reachable_searchOfTwoRacing 6 le_rfl, by rfl,
    completed_traces_diverge initial_atTwoRacing (reachable_searchOfTwoRacing 6 le_rfl)⟩

end McMini
