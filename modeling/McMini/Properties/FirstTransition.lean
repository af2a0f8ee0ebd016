import McMini.Dpor.Step

/-!
# The first transition

`happensBeforeThread` compares an index of the trace, which counts from `0`, with an entry of
a clock vector, which counts from `1` and is `0` when nothing happens before. For the first
transition the comparison always succeeds. So the search never finds a race with the first
transition, it never adds a runner to the backtrack set of the initial state, and it never
returns to depth `0`: all the traces it explores start with the same transition, whatever
other runners are enabled at the start (`head_getTrace_eq`).

At depth `0` the coordinator would restore no pending transition and destroy the trace, to
which the item of the initial state still points. As the search does not return there, the
pointers of its items never dangle (`outTransition_ne_dangling`).
-/

namespace McMini

open Search Foundation

variable {source : ProcessSource} {config : Configuration} {callbacks : Finset Callback}
  {c : Coordinator} {stack stack' : List StackItem} {p : RunnerId} {s s' : Search}

/-- The first transition happens before everything, as far as the test can tell. -/
theorem happensBeforeThread_zero {b : Bool} (h : happensBeforeThread stack 0 p = .ok b) :
    b = true := by
  unfold happensBeforeThread at h
  obtain ⟨t, -, h⟩ := bind_eq_ok.mp h
  obtain ⟨item, -, h⟩ := bind_eq_ok.mp h
  obtain ⟨cv, -, h⟩ := bind_eq_ok.mp h
  rw [← Except.ok.inj h]
  exact decide_eq_true (Nat.zero_le _)

theorem hasReversibleRace_zero {S_i next_sp : Transition} {b : Bool}
    (h : hasReversibleRace config stack S_i next_sp 0 p = .ok b) : b = false := by
  unfold hasReversibleRace at h
  split_ifs at h
  · obtain ⟨ordered, hordered, h⟩ := bind_eq_ok.mp h
    rw [happensBeforeThread_zero hordered] at h
    exact (Except.ok.inj h).symm
  · exact (Except.ok.inj h).symm

/-! ### The item of the initial state -/

theorem dynamicallyUpdateBacktrackSetsAtIndex_root {S_i next_sp : Transition} {i : ℕ} {b : Bool}
    (h : dynamicallyUpdateBacktrackSetsAtIndex config stack S_i next_sp i p = .ok (b, stack')) :
    stack'[0]? = stack[0]? := by
  unfold dynamicallyUpdateBacktrackSetsAtIndex at h
  obtain ⟨pre_si, -, h⟩ := bind_eq_ok.mp h
  obtain ⟨race, hrace, h⟩ := bind_eq_ok.mp h
  cases race with
  | false =>
    obtain ⟨-, rfl⟩ := Prod.mk.inj (Except.ok.inj h)
    rfl
  | true =>
    have hi : i ≠ 0 := by
      rintro rfl
      exact Bool.noConfusion (hasReversibleRace_zero hrace)
    obtain ⟨e, -, h⟩ := bind_eq_ok.mp h
    obtain ⟨-, rfl⟩ := Prod.mk.inj (Except.ok.inj h)
    rw [List.getElem?_set_ne hi]

/-- The item of the initial state has an empty backtrack set. -/
def RootSearched (stack : List StackItem) : Prop :=
  ∀ root, stack[0]? = some root → root.backtrackSet = ∅

theorem RootSearched.expand (h : RootSearched stack)
    (hrun : (continueDporByExpandingTraceWith source config p stack).run c = (.ok stack', c')) :
    RootSearched stack' := by
  obtain ⟨-, grown, hgrow, hupdate⟩ := continueDporByExpandingTraceWith_eq_ok hrun
  have hgrown : RootSearched grown := by
    obtain ⟨init, s_n, t_n, cv, clocks, enabled, asleep, rfl, -, -, -, -, -, -, rfl⟩ :=
      growStackAfterRunning_eq_ok hgrow
    intro root hroot
    cases init with
    | nil =>
      obtain rfl := Option.some.inj hroot
      have hempty : s_n.backtrackSet = ∅ := h s_n rfl
      show s_n.backtrackSet.erase t_n.executor = ∅
      rw [hempty, Finset.erase_empty]
    | cons first init => exact h root hroot
  refine dynamicallyUpdateBacktrackSets_preserves (fun hst hat root hroot => ?_) hupdate hgrown
  rw [dynamicallyUpdateBacktrackSetsAtIndex_root hat] at hroot
  exact hst root hroot

/-- The search returns to states other than the initial one. -/
theorem RootSearched.ne_nil {init : List StackItem} {back : StackItem} (h : RootSearched stack)
    (hpop : popExplored stack = init ++ [back]) : init ≠ [] := by
  rintro rfl
  obtain ⟨rest, hrest⟩ := popExplored_prefix stack
  have hroot : stack[0]? = some back := by
    rw [← hrest, hpop]
    rfl
  exact backtrackSet_ne_empty_of_popExplored hpop (h back hroot)

/-! ### Runs -/

/-- What the search keeps about its stack: nothing is left to be explored from the initial
state, and every pointer refers to a transition. -/
structure RootKept (s : Search) : Prop where
  searched : RootSearched s.stack
  pointers : ∀ item ∈ s.stack, item.outTransition ≠ .dangling

private theorem pointers_expand
    (hrun : (continueDporByExpandingTraceWith source config p stack).run c = (.ok stack', c'))
    (h : ∀ item ∈ stack, item.outTransition ≠ .dangling) :
    ∀ item ∈ stack', item.outTransition ≠ .dangling := by
  obtain ⟨-, grown, hgrow, hupdate⟩ := continueDporByExpandingTraceWith_eq_ok hrun
  have hgrown : ∀ item ∈ grown, item.outTransition ≠ .dangling := by
    obtain ⟨init, s_n, t_n, cv, clocks, enabled, asleep, rfl, -, -, -, -, -, -, rfl⟩ :=
      growStackAfterRunning_eq_ok hgrow
    intro item hitem
    rcases List.mem_append.mp hitem with hinit | hlast
    · exact h item (List.mem_append_left _ hinit)
    · rcases List.mem_cons.mp hlast with rfl | hnew
      · exact fun heq => nomatch heq
      · rw [List.mem_singleton.mp hnew]
        exact fun heq => nomatch heq
  intro item hitem
  have hmap := congrArg (List.map StackItem.outTransition)
    (dynamicallyUpdateBacktrackSets_map hupdate)
  rw [List.map_map, List.map_map] at hmap
  have hmem : item.outTransition ∈ grown.map (·.outTransition) := by
    have hmem : item.outTransition ∈ stack'.map (·.outTransition) := List.mem_map_of_mem hitem
    exact hmap ▸ hmem
  obtain ⟨item', hitem', heq⟩ := List.mem_map.mp hmem
  rw [← heq]
  exact hgrown item' hitem'

theorem RootKept.step (h : RootKept s) (hstep : Steps source config callbacks s s') :
    RootKept s' ∧ (s.coordinator.getTrace ≠ [] →
      s'.coordinator.getTrace.head? = s.coordinator.getTrace.head?) := by
  have expand : ∀ {p : RunnerId} {stack : List StackItem}, RootSearched stack →
      (∀ item ∈ stack, item.outTransition ≠ .dangling) →
      (continueDporByExpandingTraceWith source config p stack).run s.coordinator =
        (.ok s'.stack, s'.coordinator) →
      RootKept s' ∧ (s.coordinator.getTrace ≠ [] →
        s'.coordinator.getTrace.head? = s.coordinator.getTrace.head?) := by
    intro p stack hroot hpointers hrun
    -- an expansion appends to the trace, so its first transition stays unless there was none
    obtain ⟨hexecute, -⟩ := continueDporByExpandingTraceWith_eq_ok hrun
    obtain ⟨t, ht⟩ := executeRunner_trace hexecute
    refine ⟨⟨hroot.expand hrun, pointers_expand hrun hpointers⟩, fun hne => ?_⟩
    rw [ht, List.head?_append_of_ne_nil _ hne]
  cases hstep.move with
  | explore init back _ _ _ _ hrun => exact expand h.searched h.pointers hrun
  | finish _ _ hstack hcoordinator =>
    refine ⟨⟨?_, ?_⟩, fun _ => by rw [hcoordinator]⟩
    · intro root hroot
      rw [hstack] at hroot
      cases hroot
    · rw [hstack]
      exact fun item hitem => absurd hitem List.not_mem_nil
  | goBack init back _ hpop hrun hstack =>
    -- the search never goes back to the root, whose backtrack set is empty
    have hinit := h.searched.ne_nil hpop
    have hlen : init.length ≠ 0 := fun hzero => hinit (List.length_eq_zero_iff.mp hzero)
    have hsub : ∀ item ∈ init ++ [back], item ∈ s.stack := by
      intro item hitem
      exact (hpop ▸ popExplored_prefix s.stack).subset hitem
    have hafter : afterReturn init.length back = back := if_neg hlen
    rw [hafter] at hstack
    obtain ⟨htrace, -⟩ := returnToDepth_trace hrun
    refine ⟨⟨?_, ?_⟩, fun _ => ?_⟩
    · intro root hroot
      obtain ⟨rest, hrest⟩ := hpop ▸ popExplored_prefix s.stack
      refine h.searched root ?_
      rw [hstack] at hroot
      rw [← hrest, List.getElem?_append_left (by simp)]
      exact hroot
    · intro item hitem
      rw [hstack] at hitem
      exact h.pointers item (hsub item hitem)
    · rw [htrace, List.head?_take, if_neg hlen]
  | follow init back rid _ hstack hrid _ hrun =>
    have hmem : ∀ item ∈ init, item ∈ s.stack := fun item hitem => by
      rw [hstack]
      exact List.mem_append_left _ hitem
    refine expand ?_ ?_ hrun
    · intro root hroot
      cases init with
      | nil =>
        -- no branch is followed from the root
        have hempty : back.backtrackSet = ∅ := h.searched back (by rw [hstack]; rfl)
        rw [hempty] at hrid
        exact absurd hrid (Finset.notMem_empty rid)
      | cons first init =>
        refine h.searched root ?_
        rw [hstack]
        exact hroot
    · intro item hitem
      rcases List.mem_append.mp hitem with hinit | hlast
      · exact h.pointers item (hmem item hinit)
      · rw [List.mem_singleton.mp hlast]
        exact h.pointers back (by rw [hstack]; simp)

theorem rootKept_of_reachable (h : Search.Reachable source config callbacks c s) : RootKept s := by
  obtain ⟨s₀, hstart, hrun⟩ := h
  obtain ⟨enabled, -, hstart⟩ := bind_eq_ok.mp hstart
  obtain rfl := Except.ok.inj hstart
  induction hrun with
  | refl =>
    refine ⟨?_, ?_⟩
    · intro root hroot
      obtain rfl := Option.some.inj hroot
      rfl
    · intro item hitem
      rw [List.mem_singleton.mp hitem]
      exact fun heq => nomatch heq
  | tail _ hstep ih => exact (ih.step hstep).1

/-- **The first transition is never revised.** Whatever the search does from a state whose
trace is not empty, its traces start with the same transition. -/
theorem head_getTrace_eq (h : Search.Reachable source config callbacks c s)
    (hrun : Relation.ReflTransGen (Steps source config callbacks) s s')
    (hne : s.coordinator.getTrace ≠ []) :
    s'.coordinator.getTrace.head? = s.coordinator.getTrace.head? := by
  have hkept : RootKept s' ∧ s'.coordinator.getTrace.head? = s.coordinator.getTrace.head? := by
    induction hrun with
    | refl => exact ⟨rootKept_of_reachable h, rfl⟩
    | tail _ hstep ih =>
      obtain ⟨hkept, hhead⟩ := ih
      obtain ⟨hkept', hhead'⟩ := hkept.step hstep
      refine ⟨hkept', (hhead' fun hnil => hne ?_).trans hhead⟩
      rw [hnil] at hhead
      exact List.head?_eq_none_iff.mp hhead.symm
  exact hkept.2

/-- Both threads wait for the first semaphore. Afterwards thread `0` posts the second one. -/
private def posting : ProcessSource := fun executed p =>
  if p = 0 ∧ executed.count 0 = 0 then .ok (.semPost 101) else .ok .threadExit

private def atTwoWaiting : Coordinator :=
  ⟨.ofState (.twoThreads (.semaphore (.ofCount 1)) (.semaphore (.ofCount 0)))
      ((Finmap.singleton 0 ⟨0, .semWait 2⟩).insert 1 ⟨1, .semWait 2⟩),
    (Finmap.singleton 100 2).insert 101 3, []⟩

private def searchOfTwoWaiting : ℕ → Search
  | 0 => { coordinator := atTwoWaiting, stack := [{ cv := .empty, enabledRunners := {0, 1} }] }
  | n + 1 =>
    match (searchOfTwoWaiting n).step posting {} {.deadlock} with
    | .continues s => s
    | _ => searchOfTwoWaiting n

private theorem steps_searchOfTwoWaiting : ∀ n < 3, Steps posting {} {.deadlock}
    (searchOfTwoWaiting n) (searchOfTwoWaiting (n + 1))
  | 0, _ | 1, _ | 2, _ => by rfl

/-- When thread `1` takes the unit, the second semaphore is never posted. The search, which
starts with thread `0`, returns without having seen this deadlock. -/
theorem deadlock_not_reported :
    ∃ d s, runFrom (executeStep posting) atTwoWaiting [1, 1] = some d ∧
      d.currentProgramModel.isInDeadlock = .ok true ∧
      Search.Reachable posting {} {.deadlock} atTwoWaiting s ∧
      s.step posting {} {.deadlock} = .returns s ∧
      ∀ invocation ∈ s.invocations,
        invocation.coordinator.getStateSequence.toState ≠ d.getStateSequence.toState := by
  have hrun : (runFrom (executeStep posting) atTwoWaiting [1, 1]).map (fun d =>
      (d.currentProgramModel.isInDeadlock, d.getStateSequence.toState.objectState 3)) =
        some (.ok true, some (.semaphore (.ofCount 0))) := by rfl
  obtain ⟨d, hd, hresult⟩ := Option.map_eq_some_iff.mp hrun
  obtain ⟨hdeadlock, hobject⟩ := Prod.mk.inj hresult
  refine ⟨d, searchOfTwoWaiting 3, hd, hdeadlock, ⟨searchOfTwoWaiting 0, by rfl, ?_⟩, by rfl, ?_⟩
  · have hreach : ∀ n ≤ 3, Relation.ReflTransGen (Steps posting {} {.deadlock})
        (searchOfTwoWaiting 0) (searchOfTwoWaiting n) := by
      intro n hn
      induction n with
      | zero => exact .refl
      | succ n ih => exact (ih (by omega)).tail (steps_searchOfTwoWaiting n (by omega))
    exact hreach 3 le_rfl
  · intro invocation hmem heq
    have hreported : (searchOfTwoWaiting 3).invocations.map (fun invocation =>
        invocation.coordinator.getStateSequence.toState.objectState 3) =
          [some (.semaphore (.ofCount 1))] := by rfl
    have hobject' : invocation.coordinator.getStateSequence.toState.objectState 3 ∈
        [some (VisibleObjectState.semaphore (.ofCount 1))] := by
      rw [← hreported]
      exact List.mem_map_of_mem hmem
    rw [heq, hobject] at hobject'
    exact absurd hobject' (by decide)

/-- The pointers of the items never dangle. -/
theorem outTransition_ne_dangling (h : Search.Reachable source config callbacks c s) {item : StackItem}
    (hitem : item ∈ s.stack) : item.outTransition ≠ .dangling :=
  (rootKept_of_reachable h).pointers item hitem

end McMini
